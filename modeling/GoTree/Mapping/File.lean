import GoTree.Mapping.Plan.Construct
import GoTree.Token.Tokenizer
import GoTree.Tree.Document

/-!
# Mapping files

A source and its syntax tree make a document: the generic tree, in which every byte of the text but
blanks belongs to a leaf, and the tables of comments and tokens.

## Main definitions

* `Mapping.commentLeaves`: the comments of a file as leaves
* `Mapping.packageNode`, `Mapping.fileNode`: the package clause and the whole tree
* `mapFile`: the document of a source
-/

namespace GoTree

namespace Mapping

variable (m : Mapping)

/-! ### Comments -/

/-- The tags of a comment; a line comment has a slash as its second byte. -/
def commentTags (comment : Comment) : List Tag :=
  if (Text.bytes comment.text.toList)[1]? = some '/'.toUInt8 then [.comment]
  else [.comment, .structuredComment]

/-- **The comments of a file as leaves.** -/
def commentLeaves : List Comment → Except MapError (List Node)
  | [] => .ok []
  | comment :: rest =>
    match m.expect (commentTags comment) comment.slash comment.text "" with
    | .error e => .error e
    | .ok leaf =>
      match commentLeaves rest with
      | .error e => .error e
      | .ok leaves => .ok (leaf.toList ++ leaves)

/-! ### The tree -/

/-- Where the text proper starts: after a byte order mark, if there is one. -/
def textStart : Nat :=
  if m.text.head? = some Token.byteOrderMark then Token.byteOrderMark.utf8Size else 0

/-- The package keyword and what stands before it; without the keyword, nothing. -/
def packageLead (keyword : Option Node) (cursor : CommentCursor) :
    Except MapError (List Node × CommentCursor) :=
  match keyword with
  | none => .ok ([], cursor)
  | some leaf =>
    match m.fillGap m.textStart leaf.start cursor with
    | .error e => .error e
    | .ok (lead, cursor) => m.append lead (some leaf) cursor

/-- **The package clause**, with all that stands before it in the file. -/
def packageNode (file : File) (cursor : CommentCursor) :
    Except MapError (Option Node × CommentCursor) :=
  match m.expect [.keyword] file.package Keyword.packageKw.spelling "" with
  | .error e => .error e
  | .ok keyword =>
    match m.packageLead keyword cursor with
    | .error e => .error e
    | .ok (children, cursor) =>
      match m.realizeAll [file.name.plan [] "Name"] children cursor with
      | .error e => .error e
      | .ok (children, cursor) => .ok (Node.group? [.package] "File.Package" children, cursor)

/-- The parts of a file after its package clause: the declarations and the end. -/
def fileParts (file : File) : List Plan :=
  [.group [.declList] "Decls([]Decl)" (Plan.elementsFrom Decl.plan 0 file.decls),
   .token [.endOfFile] m.text.size "" ""]

/-- **The tree of a file.** -/
def fileNode (file : File) (cursor : CommentCursor) : Except MapError (Option Node) :=
  match m.packageNode file cursor with
  | .error e => .error e
  | .ok (package, cursor) =>
    match m.realizeAll (m.fileParts file) package.toList cursor with
    | .error e => .error e
    | .ok (children, _) => .ok (Node.group? [.compilationUnit] "(File)" children)

/-! ### The tables -/

/-- The lines and columns of a node. -/
def lineRange (node : Node) : Except MapError LineRange :=
  match m.text.lineColumn? node.start, m.text.lineColumn? node.stop with
  | some first, some last => .ok ⟨first.line, first.column, last.line, last.column⟩
  | _, _ => .error (.invalidPosition (m.source.locate node.start node.stop))

/-- The entry of a comment. -/
def commentEntry (node : Node) : Except MapError CommentEntry :=
  match m.lineRange node with
  | .ok range => .ok (.ofText node.value range)
  | .error e => .error e

/-- The entry of a token. -/
def tokenEntry (node : Node) : Except MapError TokenEntry :=
  match m.lineRange node with
  | .ok range => .ok ⟨node.value, range, .ofNode node⟩
  | .error e => .error e

/-- Whether a leaf is listed in the table of tokens. -/
def isListed (node : Node) : Bool :=
  !node.hasTag .comment && !node.hasTag .endOfFile

/-- The results of a partial function on a list, or its first error. -/
def collect {α β : Type} (f : α → Except MapError β) : List α → Except MapError (List β)
  | [] => .ok []
  | a :: rest =>
    match f a with
    | .error e => .error e
    | .ok b =>
      match collect f rest with
      | .error e => .error e
      | .ok bs => .ok (b :: bs)

/-- **The document of a file.** -/
def document (file : File) : Except MapError Document :=
  match m.commentLeaves file.allComments with
  | .error e => .error e
  | .ok comments =>
    match m.fileNode file (.start comments) with
    | .error e => .error e
    | .ok none => .error (.invalidSpan (m.source.locate 0 m.text.size))
    | .ok (some tree) =>
      match collect m.commentEntry comments with
      | .error e => .error e
      | .ok commentTable =>
        match collect m.tokenEntry (tree.leaves.filter isListed) with
        | .error e => .error e
        | .ok tokenTable => .ok ⟨tree, commentTable, tokenTable⟩

end Mapping

/-- **Maps a source with its syntax tree to a document.**  The syntax tree must come from a text of
the same size. -/
def mapFile (source : Source) (file : File) (strictness : Strictness) :
    Except MapError Document :=
  if file.size = source.text.size then Mapping.document ⟨source, strictness⟩ file
  else .error (.fileSize file.size source.text.size source.path)

end GoTree
