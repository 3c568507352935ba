import GoTree.Grammar.Run
import GoTree.Proofs.Grammar.Statement

/-!
# Files are spelled by their tokens

The recursive rules keep their guarantee under every bound on their nesting.  So a file that is read
from a text is spelled by the tokens of the text, up to the end of the text.

## Main results

* `Grammar.spelled_run`: the recursive rules under a bound
* `parse_eq_ok`: what a file read from a text records
-/

namespace GoTree

open GoTree.Parser

namespace Grammar

variable {s : ParserState}

/-- **The recursive rules keep their guarantee** under every bound on their nesting. -/
theorem spelled_run (n : Nat) : (run n).Spelled := by
  induction n with
  | zero => exact fun rule s => reads_exhausted
  | succ n ih =>
    intro rule s
    cases rule with
    | expr least => exact reads_exprBody ih least
    | unary => exact reads_unaryBody ih
    | type => exact reads_typeBody ih
    | literal ty => exact reads_literalBody ih ty
    | stmt => exact reads_stmtBody ih
    | ifThen => exact reads_ifThenBody ih

theorem reads_packageClause : Reads s packageClause fun clause taken =>
    Spells taken [.keyword clause.1 .packageKw, clause.2.recorded] [] := by
  refine (reads_expect (by simp)).bind ?_
  rintro _ s₁ _ ⟨word, rfl, hword, rfl⟩
  refine reads_ident.bind ?_
  rintro name s₂ _ ⟨token, rfl, hname⟩
  have hclause := (Spells.keyword hword rfl).append (.singleton hname)
  refine reads_endStatement.bind ?_
  rintro _ s₃ _ (rfl | ⟨semicolon, rfl, hkind⟩)
  · exact .pure hclause
  · have hend : Spells [semicolon] [] [] := .implied hkind (by decide)
    exact .pure ((hclause.append hend).congr (by simp) (by simp) (by simp))

/-- **The package clause and the declarations** are spelled by their tokens. -/
theorem reads_file {g : Grammar} (hg : g.Spelled) : Reads s g.file fun result taken =>
    Spells taken (.keyword result.1 .packageKw :: result.2.1.recorded ::
      result.2.2.flatMap Decl.recorded) (result.2.2.flatMap Decl.exprs) := by
  refine reads_packageClause.bind ?_
  rintro ⟨package, name⟩ s₁ tpackage hpackage
  refine (reads_untilKind fun s _ => reads_withEnd (reads_decl hg)).bind
    fun decls s₂ tdecls hdecls => .pure ?_
  exact (hpackage.append (.each hdecls)).congr (by simp) (by simp) (by simp)

/-- Declarations are read up to the end of the text. -/
theorem file_stops {g : Grammar} {result : Offset × Ident × List Decl} {s' : ParserState}
    (h : g.file s = (.ok result, s')) : (current s').kind = .endOfFile := by
  obtain ⟨⟨package, name⟩, s₁, -, hrest⟩ := bind_eq_ok_iff.1 h
  obtain ⟨decls, s₂, hdecls, hpure⟩ := bind_eq_ok_iff.1 hrest
  obtain ⟨-, rfl⟩ : result = (package, name, decls) ∧ s₂ = s' := by simpa [eq_comm] using hpure
  simpa using stop_of_untilKind hdecls

end Grammar

/-- **A file read from a text** is spelled by tokens of the text, after which the text ends; its
comments are those of the text. -/
theorem parse_eq_ok {t : Text} {file : File} (h : parse t = .ok file) :
    (∃ taken rest, (TokenStream.ofText t).tokens = taken ++ rest ∧
      (rest.headD (.endOfFile 0)).kind = .endOfFile ∧ Spells taken file.recorded file.exprs) ∧
    file.comments = commentGroups t (TokenStream.ofText t).comments ∧ file.size = t.size := by
  unfold parse at h
  dsimp only at h
  split at h
  · rename_i package name decls hrun
    obtain rfl := Except.ok.inj h
    refine ⟨?_, rfl, rfl⟩
    obtain ⟨s', hresult⟩ : ∃ s', (Grammar.run _).file ⟨(TokenStream.ofText t).tokens, 0⟩ =
        (.ok (package, name, decls), s') := ⟨_, Prod.ext hrun rfl⟩
    obtain ⟨taken, htokens, hspells⟩ := (Grammar.reads_file (Grammar.spelled_run _)).ok _ _ hresult
    exact ⟨taken, _, htokens, Grammar.file_stops hresult, hspells⟩
  · simp at h

end GoTree
