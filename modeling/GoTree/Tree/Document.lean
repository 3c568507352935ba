import GoTree.Text.Json
import GoTree.Tree.Entry

/-!
# Documents

The whole result for one file: the tree and its side tables, and how they are written as JSON.  A
node leaves out its tags, its text or its children when it has none, and a leaf leaves out an empty
text.

## Main definitions

* `Document`: a tree with its tables
* `Document.toJson`, `Document.text`: a document as a JSON value and as JSON text
-/

namespace GoTree

/-- A tree with the comments and tokens of its file. -/
structure Document where
  tree : Node
  comments : List CommentEntry
  tokens : List TokenEntry

/-- The fields of a leaf's text; an empty text is left out. -/
def LeafToken.toJson (token : LeafToken) : Json :=
  .object ((if token.value.isEmpty then [] else [⟨"value", .string token.value⟩]) ++
    [⟨"line", .number token.line⟩, ⟨"column", .number token.column⟩])

mutual

/-- **A node as JSON**, without the bytes it spans. -/
def Node.toJson : Node → Json
  | ⟨tags, token, label, children, _, _⟩ =>
    .object ((if tags.isEmpty then [] else [⟨"kinds", .array (tags.map fun tag => .string tag.name)⟩])
      ++ (match token with
          | some token => [⟨"token", token.toJson⟩]
          | none => [])
      ++ [⟨"nativeNode", .string label⟩]
      ++ (if children.isEmpty then [] else [⟨"children", .array (Node.toJsonAll children)⟩]))

/-- Several nodes as JSON. -/
def Node.toJsonAll : List Node → List Json
  | [] => []
  | node :: rest => node.toJson :: Node.toJsonAll rest

end

/-- A comment as JSON. -/
def CommentEntry.toJson (entry : CommentEntry) : Json :=
  .object
    [⟨"text", .string entry.text⟩, ⟨"contentText", .string entry.contentText⟩,
     ⟨"range", .string entry.range.show⟩, ⟨"contentRange", .string entry.contentRange.show⟩]

/-- A token as JSON. -/
def TokenEntry.toJson (entry : TokenEntry) : Json :=
  .object
    [⟨"text", .string entry.text⟩, ⟨"range", .string entry.range.show⟩,
     ⟨"type", .string entry.type.name⟩]

namespace Document

/-- The side tables as JSON. -/
def tables (document : Document) : Json :=
  .object
    [⟨"comments", .array (document.comments.map CommentEntry.toJson)⟩,
     ⟨"tokens", .array (document.tokens.map TokenEntry.toJson)⟩]

/-- **A document as JSON.** -/
def toJson (document : Document) : Json :=
  .object [⟨"treeMetaData", document.tables⟩, ⟨"tree", document.tree.toJson⟩]

/-- A document as JSON text. -/
def text (document : Document) : String :=
  document.toJson.pretty

end Document

end GoTree
