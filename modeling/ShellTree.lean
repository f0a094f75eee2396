import ShellTree.Main
import ShellTree.Tool.Files
import ShellTree.Proofs.Node.Induction
import ShellTree.Proofs.Node.Same
import ShellTree.Proofs.Codec.Opening
import ShellTree.Proofs.Codec.RoundTrip
import ShellTree.Proofs.Codec.Normal
import ShellTree.Proofs.Codec.Grammar
import ShellTree.Proofs.Text.Bytes
import ShellTree.Proofs.Codec.Stages
import ShellTree.Proofs.Codec.FirstFault
import ShellTree.Proofs.Render.Construct
import ShellTree.Proofs.Render.Order
import ShellTree.Proofs.Render.Faults
import ShellTree.Proofs.Render.Rewriting
import ShellTree.Proofs.Render.Positions
import ShellTree.Proofs.Render.Wording
import ShellTree.Proofs.Render.Redirection
import ShellTree.Proofs.Render.Context
import ShellTree.Proofs.Text.InOrder
import ShellTree.Proofs.Render.Literals
import ShellTree.Proofs.Text.Indent
import ShellTree.Proofs.Text.Lines
import ShellTree.Proofs.Text.Outdent
import ShellTree.Proofs.Render.Tree
import ShellTree.Proofs.Render.Statement
import ShellTree.Proofs.Render.Depth
import ShellTree.Proofs.Render.Chain
import ShellTree.Proofs.Render.Comments
import ShellTree.Proofs.Render.Grouping
import ShellTree.Proofs.Render.Renderable
import ShellTree.Proofs.Render.Dialects
import ShellTree.Proofs.Render.BlockLines
import ShellTree.Proofs.Render.Blocks
import ShellTree.Proofs.Json.Reader
import ShellTree.Proofs.Json.Nesting
import ShellTree.Proofs.Json.Printer
import ShellTree.Proofs.Codec.Nesting
import ShellTree.Proofs.Tagged.KeyOrder
import ShellTree.Proofs.Json.KeyOrder
import ShellTree.Proofs.Tool.Reread
import ShellTree.Proofs.Text.Quoted
import ShellTree.Proofs.Outline.Layout
import ShellTree.Proofs.Outline.ReadBack
import ShellTree.Proofs.Codec.Positions
import ShellTree.Proofs.Render.Scopes
import ShellTree.Proofs.Node.Paths
import ShellTree.Proofs.Text.Abreast
