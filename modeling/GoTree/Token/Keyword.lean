import GoTree.Text.Basic

/-!
# Keywords

The reserved words of the language.

## Main definitions

* `Keyword`, `Keyword.spelling`, `Keyword.name`: the keywords, how they are written and what they are called
* `Keyword.ofSpelling?`: reading a keyword back
-/

namespace GoTree

/-- A reserved word. -/
inductive Keyword where
  | breakKw | caseKw | chanKw | constKw | continueKw | defaultKw | deferKw | elseKw
  | fallthroughKw | forKw | funcKw | goKw | gotoKw | ifKw | importKw | interfaceKw | mapKw
  | packageKw | rangeKw | returnKw | selectKw | structKw | switchKw | typeKw | varKw
deriving DecidableEq, Repr

namespace Keyword

/-- Every keyword. -/
def all : List Keyword :=
  [.breakKw, .caseKw, .chanKw, .constKw, .continueKw, .defaultKw, .deferKw, .elseKw,
   .fallthroughKw, .forKw, .funcKw, .goKw, .gotoKw, .ifKw, .importKw, .interfaceKw, .mapKw,
   .packageKw, .rangeKw, .returnKw, .selectKw, .structKw, .switchKw, .typeKw, .varKw]

/-- How a keyword is written. -/
def spelling : Keyword → String
  | .breakKw => "break"
  | .caseKw => "case"
  | .chanKw => "chan"
  | .constKw => "const"
  | .continueKw => "continue"
  | .defaultKw => "default"
  | .deferKw => "defer"
  | .elseKw => "else"
  | .fallthroughKw => "fallthrough"
  | .forKw => "for"
  | .funcKw => "func"
  | .goKw => "go"
  | .gotoKw => "goto"
  | .ifKw => "if"
  | .importKw => "import"
  | .interfaceKw => "interface"
  | .mapKw => "map"
  | .packageKw => "package"
  | .rangeKw => "range"
  | .returnKw => "return"
  | .selectKw => "select"
  | .structKw => "struct"
  | .switchKw => "switch"
  | .typeKw => "type"
  | .varKw => "var"

/-- What a keyword is called in listings. -/
def name : Keyword → String
  | .breakKw => "BREAK_KW"
  | .caseKw => "CASE_KW"
  | .chanKw => "CHAN_KW"
  | .constKw => "CONST_KW"
  | .continueKw => "CONTINUE_KW"
  | .defaultKw => "DEFAULT_KW"
  | .deferKw => "DEFER_KW"
  | .elseKw => "ELSE_KW"
  | .fallthroughKw => "FALLTHROUGH_KW"
  | .forKw => "FOR_KW"
  | .funcKw => "FUNC_KW"
  | .goKw => "GO_KW"
  | .gotoKw => "GOTO_KW"
  | .ifKw => "IF_KW"
  | .importKw => "IMPORT_KW"
  | .interfaceKw => "INTERFACE_KW"
  | .mapKw => "MAP_KW"
  | .packageKw => "PACKAGE_KW"
  | .rangeKw => "RANGE_KW"
  | .returnKw => "RETURN_KW"
  | .selectKw => "SELECT_KW"
  | .structKw => "STRUCT_KW"
  | .switchKw => "SWITCH_KW"
  | .typeKw => "TYPE_KW"
  | .varKw => "VAR_KW"

/-- The keyword that a word is, if it is one. -/
def ofSpelling? : String → Option Keyword
  | "break" => some .breakKw
  | "case" => some .caseKw
  | "chan" => some .chanKw
  | "const" => some .constKw
  | "continue" => some .continueKw
  | "default" => some .defaultKw
  | "defer" => some .deferKw
  | "else" => some .elseKw
  | "fallthrough" => some .fallthroughKw
  | "for" => some .forKw
  | "func" => some .funcKw
  | "go" => some .goKw
  | "goto" => some .gotoKw
  | "if" => some .ifKw
  | "import" => some .importKw
  | "interface" => some .interfaceKw
  | "map" => some .mapKw
  | "package" => some .packageKw
  | "range" => some .rangeKw
  | "return" => some .returnKw
  | "select" => some .selectKw
  | "struct" => some .structKw
  | "switch" => some .switchKw
  | "type" => some .typeKw
  | "var" => some .varKw
  | _ => none

@[simp]
theorem mem_all (k : Keyword) : k ∈ all := by
  cases k <;> decide

/-- **A word is a keyword exactly if it is spelled as the keyword is.** -/
theorem ofSpelling?_eq_some_iff {word : String} {k : Keyword} :
    ofSpelling? word = some k ↔ k.spelling = word := by
  constructor
  · intro h
    unfold ofSpelling? at h
    split at h <;> first | (obtain rfl := Option.some.inj h; rfl) | simp at h
  · rintro rfl
    cases k <;> rfl

end Keyword

end GoTree
