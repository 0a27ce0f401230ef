import DocTree.Main
import DocTree.Proofs.Text.Words
import DocTree.Proofs.Tree.Properties
import DocTree.Proofs.Tree.Normalize
import DocTree.Proofs.Json.Nest
import DocTree.Proofs.Tree.Decode
import DocTree.Proofs.Module.Session
import DocTree.Proofs.Module.Outcome
import DocTree.Proofs.Json.ReadBack
import DocTree.Proofs.Tree.ReadBack
import DocTree.Proofs.Module.Unambiguous
import DocTree.Proofs.Json.Balance
import DocTree.Proofs.Json.Extent
import DocTree.Proofs.Tree.Truncation
import DocTree.Proofs.Json.Pieces
import DocTree.Proofs.Tree.FieldOrder
import DocTree.Proofs.Preview.Attributes
import DocTree.Proofs.Preview.Stream
import DocTree.Proofs.Files.Entry
import DocTree.Proofs.Files.Workspace
import DocTree.Proofs.Text.Order
import DocTree.Proofs.Command.Generate
import DocTree.Proofs.Preview.Comments
import DocTree.Proofs.Tree.Depth
import DocTree.Proofs.Json.Grammar
import DocTree.Proofs.Json.Ahead
import DocTree.Proofs.Json.WellFormed
import DocTree.Proofs.Tree.Numerals
import DocTree.Proofs.Files.Links
import DocTree.Proofs.Watch.Run
import DocTree.Proofs.Files.Selection
import DocTree.Proofs.Files.Listing
import DocTree.Proofs.Tree.Element
import DocTree.Proofs.Module.Template
import DocTree.Proofs.Style.RoundTrip
import DocTree.Proofs.Style.Name
import DocTree.Proofs.Tree.AttributeName
import DocTree.Proofs.Module.Newlines
import DocTree.Proofs.Module.Regrouping
import DocTree.Proofs.Statement.BoundName
import DocTree.Proofs.Statement.DefaultReexport
import DocTree.Proofs.Statement.Declaration
import DocTree.Proofs.Statement.DefaultExport
import DocTree.Proofs.Files.Output
import DocTree.Proofs.Files.ModuleRoot
import DocTree.Proofs.Files.AbsolutePatterns
import DocTree.Proofs.Module.Footprint
import DocTree.Proofs.Json.Contents
import DocTree.Proofs.Tree.Source
import DocTree.Proofs.Tree.OrderedMap
