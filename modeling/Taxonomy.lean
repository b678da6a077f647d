import Taxonomy.Main
import Taxonomy.Schema.Printer
import Taxonomy.Settings.Json
import Taxonomy.Settings.Save
import Taxonomy.Proofs.Schema.Account
import Taxonomy.Proofs.Schema.Grammar
import Taxonomy.Proofs.Forest.Loops
import Taxonomy.Proofs.Schema.Move
import Taxonomy.Proofs.Schema.Recovery
import Taxonomy.Proofs.Schema.Roundtrip
import Taxonomy.Proofs.Forest.Omission
import Taxonomy.Proofs.Forest.Reordering
import Taxonomy.Proofs.Forest.Insertion
import Taxonomy.Proofs.Generate
import Taxonomy.Proofs.Json.Escape
import Taxonomy.Proofs.Json.Reader
import Taxonomy.Proofs.Json.Reload
import Taxonomy.Proofs.Toml.Text
import Taxonomy.Proofs.Toml.Document
import Taxonomy.Proofs.Settings.Layer
import Taxonomy.Proofs.Files.Path
import Taxonomy.Proofs.Files.System
import Taxonomy.Proofs.Files.Disk
import Taxonomy.Proofs.Settings.Save
import Taxonomy.Proofs.Files.Directories
import Taxonomy.Proofs.Run
import Taxonomy.Proofs.Schema.Relabel
import Taxonomy.Proofs.Token.Spacing
import Taxonomy.Proofs.Token.Excerpt
import Taxonomy.Proofs.Schema.Respacing
import Taxonomy.Proofs.Settings.Cover
import Taxonomy.Proofs.CommandLine.Arguments
import Taxonomy.Proofs.Settings.Precedence
import Taxonomy.Proofs.Text.Position
import Taxonomy.Proofs.Schema.Items
import Taxonomy.Proofs.Token.Segmentation
import Taxonomy.Proofs.Schema.Alone
import Taxonomy.Proofs.Schema.History
import Taxonomy.Proofs.Schema.Redeclaration
import Taxonomy.Proofs.Schema.Nesting
import Taxonomy.Proofs.Forest.Recursion
import Taxonomy.Proofs.Forest.Rounds
import Taxonomy.Proofs.Search.Ranking
import Taxonomy.Proofs.Forest.Lookup
import Taxonomy.Proofs.Token.Line
import Taxonomy.Proofs.Schema.Message
import Taxonomy.Proofs.Schema.Bounds
import Taxonomy.Proofs.Schema.Progress
import Taxonomy.Proofs.Settings.Variable
