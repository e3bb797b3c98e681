import MediaMigration.BlobStore.Basic
import MediaMigration.BlobStore.Content
import MediaMigration.BlobStore.Listing
import MediaMigration.BlobStore.Upload
import MediaMigration.CommandLine.Arguments
import MediaMigration.CommandLine.Command
import MediaMigration.CommandLine.Summary
import MediaMigration.Error
import MediaMigration.FileTree.Basic
import MediaMigration.FileTree.Change
import MediaMigration.FileTree.IoError
import MediaMigration.FileTree.Layout
import MediaMigration.FileTree.Path
import MediaMigration.FileTree.Resolution
import MediaMigration.FileTree.Traversal
import MediaMigration.Json
import MediaMigration.Main
import MediaMigration.Manifest.Document
import MediaMigration.Migration.Collection
import MediaMigration.Migration.Report
import MediaMigration.Migration.Run
import MediaMigration.Migration.Session
import MediaMigration.Placement
import MediaMigration.Resource.Kind
import MediaMigration.Resource.Locator
import MediaMigration.Resource.Record
import MediaMigration.Resource.Value
import MediaMigration.ResourceName
import MediaMigration.Settings.Basic
import MediaMigration.Settings.Document
import MediaMigration.Settings.Environment
import MediaMigration.Template.Basic
import MediaMigration.Template.Expansion
import MediaMigration.Template.Mapper
import MediaMigration.Template.Placeholder
import MediaMigration.Text.AsciiCase
import MediaMigration.Text.Hexadecimal
import MediaMigration.Text.Split
import MediaMigration.Unicode.Alphanumeric
import MediaMigration.Unicode.Cased
import MediaMigration.Unicode.CodeRange
import MediaMigration.Unicode.Lowercase
import MediaMigration.Unicode.WhiteSpace
import MediaMigration.Uuid
import MediaMigration.Yaml.Character
import MediaMigration.Yaml.Cursor
import MediaMigration.Yaml.Decoder
import MediaMigration.Yaml.Error
import MediaMigration.Yaml.Node.Basic
import MediaMigration.Yaml.Node.OfTokens
import MediaMigration.Yaml.Scalar
import MediaMigration.Yaml.Token.Basic
import MediaMigration.Yaml.Token.Block
import MediaMigration.Yaml.Token.Gap
import MediaMigration.Yaml.Token.Layout
import MediaMigration.Yaml.Token.Plain
import MediaMigration.Yaml.Token.Property
import MediaMigration.Yaml.Token.Quoted
import MediaMigration.Yaml.Token.Scan
import MediaMigration.Proofs.Template.Piece
import MediaMigration.Proofs.Template.Substitution
import MediaMigration.Proofs.ResourceName.LegalName
import MediaMigration.Proofs.FileTree.Growth
import MediaMigration.Proofs.FileTree.Creation
import MediaMigration.Proofs.BlobStore.Content
import MediaMigration.Proofs.BlobStore.Upload
import MediaMigration.Proofs.BlobStore.History
import MediaMigration.Proofs.BlobStore.NewBlobs
import MediaMigration.Proofs.Migration.Attempt
import MediaMigration.Proofs.Migration.FileUploads
import MediaMigration.Proofs.Migration.Delivery
import MediaMigration.Proofs.Migration.Run
import MediaMigration.Proofs.Migration.Accounting
import MediaMigration.Proofs.CommandLine.ExitCode
import MediaMigration.Proofs.Migration.Cancellation
import MediaMigration.Proofs.FileTree.Path
import MediaMigration.Proofs.FileTree.Location
import MediaMigration.Proofs.FileTree.Opening
import MediaMigration.Proofs.FileTree.WellFormed
import MediaMigration.Proofs.BlobStore.Overwriting
import MediaMigration.Proofs.BlobStore.Deposits
import MediaMigration.Proofs.FileTree.DepthFirst
import MediaMigration.Proofs.FileTree.Descent
import MediaMigration.Proofs.BlobStore.Listing
import MediaMigration.Proofs.Migration.ContainerCopy
import MediaMigration.Proofs.BlobStore.Confinement
import MediaMigration.Proofs.Migration.Collection
import MediaMigration.Proofs.Migration.Preview
import MediaMigration.Proofs.BlobStore.Names
import MediaMigration.Proofs.Migration.Targets
import MediaMigration.Proofs.FileTree.Ancestors
import MediaMigration.Proofs.FileTree.Continuation
import MediaMigration.Proofs.Text.ByteOrder
import MediaMigration.Proofs.BlobStore.Invariant
import MediaMigration.Proofs.BlobStore.ExactListing
import MediaMigration.Proofs.FileTree.PlainWalk
import MediaMigration.Proofs.FileTree.MakingWay
import MediaMigration.Proofs.FileTree.Ahead
import MediaMigration.Proofs.FileTree.Absence
import MediaMigration.Proofs.BlobStore.Neighbours
import MediaMigration.Proofs.Migration.SteadyInputs
import MediaMigration.Proofs.Migration.InputWalk
import MediaMigration.Proofs.Migration.Isolation
import MediaMigration.Proofs.Template.FilledText
import MediaMigration.Proofs.Resource.Fields
import MediaMigration.Proofs.Resource.StreamingLookup
import MediaMigration.Proofs.Resource.KeyNames
import MediaMigration.Proofs.ResourceName.InsertedName
import MediaMigration.Proofs.Migration.KeyAddresses
import MediaMigration.Proofs.ResourceName.LetterCase
import MediaMigration.Proofs.Template.LetterCase
import MediaMigration.Proofs.Migration.StreamingUrl
import MediaMigration.Proofs.ResourceName.Alignment
import MediaMigration.Proofs.BlobStore.AlignedPlaces
import MediaMigration.Proofs.Migration.Identifiers
import MediaMigration.Proofs.FileTree.MakingAgain
import MediaMigration.Proofs.BlobStore.UploadAgain
import MediaMigration.Proofs.Migration.Rerun
import MediaMigration.Proofs.Template.Memory
import MediaMigration.Proofs.Settings.Templates
import MediaMigration.Proofs.CommandLine.Loading
import MediaMigration.Proofs.CommandLine.Options
import MediaMigration.Proofs.CommandLine.Priority
import MediaMigration.Proofs.Migration.ContainerDelivery
import MediaMigration.Proofs.Migration.FileDelivery
import MediaMigration.Proofs.FileTree.Approach
import MediaMigration.Proofs.FileTree.Removal
import MediaMigration.Proofs.BlobStore.Transfer
import MediaMigration.Proofs.BlobStore.FailedOverwrite
import MediaMigration.Proofs.BlobStore.Copying
import MediaMigration.Proofs.ResourceName.LegalContainer
import MediaMigration.Proofs.Template.ContainerName
import MediaMigration.Proofs.BlobStore.TakenNames
import MediaMigration.Proofs.Migration.Listings
import MediaMigration.Proofs.Migration.PartialDelivery
import MediaMigration.Proofs.Migration.ReportedNames
import MediaMigration.Proofs.ResourceName.Words
import MediaMigration.Proofs.ResourceName.SplitName
import MediaMigration.Proofs.Text.Utf8
import MediaMigration.Proofs.Template.Occurrence
import MediaMigration.Proofs.Template.Validation
