import ContainerAliases.Config.Value
import ContainerAliases.Main
import ContainerAliases.Session
import ContainerAliases.Proofs.OrderedMap
import ContainerAliases.Proofs.Project.Refresh
import ContainerAliases.Proofs.Project.History
import ContainerAliases.Proofs.Project.Rescan
import ContainerAliases.Proofs.Alias.Collection
import ContainerAliases.Proofs.Cache.Slots
import ContainerAliases.Proofs.Session.Run
import ContainerAliases.Proofs.Session.Transparency
import ContainerAliases.Proofs.Classes.Descent
import ContainerAliases.Proofs.Project.Hierarchy
import ContainerAliases.Proofs.Classes.Order
import ContainerAliases.Proofs.Project.Overriding
import ContainerAliases.Proofs.Project.SecondRefresh
import ContainerAliases.Proofs.Alias.LastWrite
import ContainerAliases.Proofs.Cache.Interleaving
import ContainerAliases.Proofs.Cache.Staleness
import ContainerAliases.Proofs.Alias.Descendants
import ContainerAliases.Proofs.Source.Written
import ContainerAliases.Proofs.Project.Decoding
import ContainerAliases.Proofs.Disk.Spelling
import ContainerAliases.Proofs.Session.Buffers
import ContainerAliases.Proofs.Classes.Reading
import ContainerAliases.Proofs.Classes.Namespaces
import ContainerAliases.Proofs.Alias.Correspondence
import ContainerAliases.Proofs.Source.Tree
import ContainerAliases.Proofs.Source.Relabel
import ContainerAliases.Proofs.Classes.Lower
import ContainerAliases.Proofs.Classes.Case
import ContainerAliases.Proofs.Classes.Correspondence
import ContainerAliases.Proofs.Project.Lookup
import ContainerAliases.Proofs.Project.Case
import ContainerAliases.Proofs.Classes.Relabel
import ContainerAliases.Proofs.Classes.Still
import ContainerAliases.Proofs.Source.Ranges
import ContainerAliases.Proofs.Source.Spans
import ContainerAliases.Proofs.Source.Reads
import ContainerAliases.Proofs.Source.Grammar.Rules
import ContainerAliases.Proofs.Source.Grammar.Parts
import ContainerAliases.Proofs.Source.Grammar.Members
import ContainerAliases.Proofs.Source.Grammar.Expression
import ContainerAliases.Proofs.Source.Grammar.Statement
import ContainerAliases.Proofs.Source.Parse
import ContainerAliases.Proofs.Project.Edited
import ContainerAliases.Proofs.Project.Frame
import ContainerAliases.Proofs.Project.LastText
import ContainerAliases.Proofs.Cache.History
import ContainerAliases.Proofs.Cache.Settled
import ContainerAliases.Proofs.Cache.SingleFlight
import ContainerAliases.Proofs.Classes.Clauses
import ContainerAliases.Proofs.Classes.Imports
import ContainerAliases.Proofs.Classes.Distance
import ContainerAliases.Proofs.Classes.Outermost
import ContainerAliases.Proofs.Classes.Parents
import ContainerAliases.Proofs.Project.Nearest
import ContainerAliases.Proofs.Project.Nodes
import ContainerAliases.Proofs.Source.Commented
import ContainerAliases.Proofs.Alias.Comments
import ContainerAliases.Proofs.Alias.ReadingOrder
import ContainerAliases.Proofs.Project.Stamps
import ContainerAliases.Proofs.Traversal
import ContainerAliases.Proofs.Disk.Following
import ContainerAliases.Proofs.Disk.Places
import ContainerAliases.Proofs.Disk.Children
import ContainerAliases.Proofs.Project.Scanning
import ContainerAliases.Proofs.Glob.Matching
import ContainerAliases.Proofs.Glob.Descent
import ContainerAliases.Proofs.Glob.Rooted
import ContainerAliases.Proofs.Project.Wildcards
import ContainerAliases.Proofs.Disk.Climbing
import ContainerAliases.Proofs.Project.Root
import ContainerAliases.Proofs.Project.Failure
import ContainerAliases.Proofs.Project.Exclusion
import ContainerAliases.Proofs.Json.RoundTrip
import ContainerAliases.Proofs.CommandLine.Answers
