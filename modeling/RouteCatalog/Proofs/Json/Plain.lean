import RouteCatalog.Proofs.Json.Quote
import RouteCatalog.Proofs.Number.ReadBack
import RouteCatalog.Proofs.Text.Ascii

/-!
# Written JSON is plain text

Everything outside ASCII is escaped, and so is a carriage return inside a string. Line ends are line
feeds. So a written value can be stored and comes back as it was.
-/

namespace RouteCatalog

open Text (Plain)

/-! ## Numbers -/

theorem CodePoint.plain_ofChar {c : Char} (hlow : c.toNat < 0x80) (hc : c ≠ '\r') :
    (CodePoint.ofChar c).Plain :=
  ⟨hlow, fun h ↦ hc (CodePoint.ofChar_injective h)⟩

/-- Characters that make up numerals. -/
def Numeral.PlainChars (cs : List Char) : Prop := ∀ c ∈ cs, c.toNat < 0x80 ∧ c ≠ '\r'

instance (cs : List Char) : Decidable (Numeral.PlainChars cs) :=
  List.decidableBAll _ cs

theorem Numeral.PlainChars.plain {cs : List Char} (h : PlainChars cs) :
    Plain (cs.map CodePoint.ofChar) := by
  intro c hc
  obtain ⟨d, hd, rfl⟩ := List.mem_map.mp hc
  exact CodePoint.plain_ofChar (h d hd).1 (h d hd).2

theorem Numeral.AllDigits.plainChars {cs : List Char} (h : AllDigits cs) : PlainChars cs := by
  intro c hc
  have hdigit := h c hc
  have hcode := CodePoint.isAsciiDigit_ofChar hdigit
  rw [CodePoint.isAsciiDigit, CodePoint.between, Bool.and_eq_true, decide_eq_true_eq,
    decide_eq_true_eq, CodePoint.toNat_ofChar] at hcode
  refine ⟨by omega, ?_⟩
  rintro rfl
  cases hdigit

theorem Numeral.PlainChars.append {a b : List Char} (ha : PlainChars a) (hb : PlainChars b) :
    PlainChars (a ++ b) := by
  intro c hc
  rcases List.mem_append.mp hc with h | h
  · exact ha c h
  · exact hb c h

theorem Text.plain_ofNat (n : Nat) : Plain (Text.ofNat n) :=
  (Numeral.allDigits_toDigits n).plainChars.plain

theorem Text.plain_ofInt (i : Int) : Plain (Text.ofInt i) := by
  cases i with
  | ofNat n => exact Text.plain_ofNat n
  | negSucc n => exact .cons (by decide) (Text.plain_ofNat (n + 1))

namespace Binary64

open Numeral (AllDigits PlainChars)

theorem plainChars_layout {ds : List Char} (hds : AllDigits ds) (point : Int) :
    PlainChars (layout ds point) := by
  have hplain := hds.plainChars
  have hzeros (k : Nat) : PlainChars (List.replicate k '0') :=
    (Numeral.allDigits_replicate k).plainChars
  have hcons {c : Char} {cs : List Char} (hc : c.toNat < 0x80 ∧ c ≠ '\r') (h : PlainChars cs) :
      PlainChars (c :: cs) := List.forall_mem_cons.mpr ⟨hc, h⟩
  unfold layout
  split
  · split
    · exact hcons (by decide) (hcons (by decide) ((hzeros _).append hplain))
    · dsimp only
      split
      · exact (hplain.append (hzeros _)).append (by decide)
      · exact PlainChars.append (fun c hc ↦ hplain c (List.mem_of_mem_take hc))
          (hcons (by decide) fun c hc ↦ hplain c (List.mem_of_mem_drop hc))
  · have hexp (e : Int) : PlainChars (Nat.toDigits 10 e.natAbs) :=
      (Numeral.allDigits_toDigits e.natAbs).plainChars
    refine PlainChars.append ?_ (hcons (by decide) (hcons (by split <;> decide) ?_))
    · split
      · simp [PlainChars]
      · exact hplain
      · next d rest _ =>
        exact hcons (hplain d List.mem_cons_self)
          (hcons (by decide) fun c hc ↦ hplain c (List.mem_cons_of_mem d hc))
    · split
      · exact hcons (by decide) (hexp _)
      · exact hexp _

theorem plainChars_magnitudeText (m : Magnitude) : PlainChars (magnitudeText m) := by
  unfold magnitudeText
  split
  · decide
  · refine plainChars_layout (fun c hc ↦ ?_) _
    obtain ⟨k, hk⟩ := exists_eq_dropZeros_append (Nat.toDigits 10 m.shortest.digits)
    refine Numeral.allDigits_toDigits m.shortest.digits c ?_
    rw [hk]
    exact List.mem_append_left _ hc

theorem plain_text (x : Binary64) : Plain x.text := by
  cases x with
  | nan => decide
  | infinite negative => cases negative <;> decide
  | finite negative m =>
    have h := (plainChars_magnitudeText m).plain
    cases negative with
    | true => exact .cons (by decide) h
    | false => exact h

end Binary64

namespace Json

/-! ## Strings -/

theorem plain_escapeUnit (n : Nat) : Plain (escapeUnit n) := by
  have hdigit : ∀ d < 16, (hexDigit d).Plain := by decide
  rw [escapeUnit, Token.ofHex_four]
  refine .append (by decide) (.cons (hdigit _ (Nat.mod_lt _ (by decide)))
    (.cons (hdigit _ (Nat.mod_lt _ (by decide))) (.cons (hdigit _ (Nat.mod_lt _ (by decide)))
      (.cons (hdigit _ (Nat.mod_lt _ (by decide))) .nil))))

private theorem plain_of_shortEscape? {e c : CodePoint} (h : Token.shortEscape? e = some c) :
    e.Plain := by
  have hmark : e = '"' ∨ e = '\\' ∨ e = '/' ∨ e = 'b' ∨ e = 'f' ∨ e = 'n' ∨ e = 'r' ∨ e = 't' := by
    by_contra hne
    simp only [not_or] at hne
    simp [Token.shortEscape?, hne] at h
  rcases hmark with rfl | rfl | rfl | rfl | rfl | rfl | rfl | rfl <;> decide

theorem plain_escapeChar (c : CodePoint) : Plain (escapeChar c) := by
  generalize htext : escapeChar c = text
  have hescaped : Token.Escaped c text := htext ▸ Token.escaped_escapeChar c
  cases hescaped with
  | short e he _ _ => exact .cons (by decide) (.cons (plain_of_shortEscape? he) .nil)
  | plain _ _ hlow hhigh =>
    refine .cons ⟨by omega, ?_⟩ .nil
    rintro rfl
    exact absurd hlow (by decide)
  | unit _ => exact plain_escapeUnit _
  | pair _ => exact (plain_escapeUnit _).append (plain_escapeUnit _)

theorem plain_quote (t : Text) : Plain (quote t) :=
  .cons (by decide) (.append (.flatMap fun c _ ↦ plain_escapeChar c) (by decide))

/-! ## Values -/

theorem plain_numberText (x : Binary64) : Plain (numberText x) := by
  cases x with
  | nan => decide
  | infinite negative => cases negative <;> decide
  | finite negative m => exact Binary64.plain_text (.finite negative m)

private theorem plain_brackets : Plain "[]" := by decide

private theorem plain_braces : Plain "\x7b\x7d" := by decide

theorem plain_scalarText (v : Json) : Plain (scalarText v) := by
  cases v with
  | null => decide
  | bool b => cases b <;> decide
  | int i => exact Text.plain_ofInt i
  | float x => exact plain_numberText x
  | str t => exact plain_quote t
  | arr => exact plain_brackets
  | obj => exact plain_braces

theorem plain_newLine (level : Nat) : Plain (newLine level) :=
  .cons (by decide) (.replicate (by decide) _)

mutual

/-- **A written value is plain text.** -/
theorem plain_indented (level : Nat) : (v : Json) → Plain (indented level v)
  | .arr [] => plain_brackets
  | .arr (v :: rest) =>
    .cons (by decide) (((plain_newLine _).append (plain_indented _ v)).append
      (plain_indentedItems level rest))
  | .obj [] => plain_braces
  | .obj ((k, v) :: rest) =>
    .cons (by decide) (((((plain_newLine _).append (plain_quote k)).append (by decide)).append
      (plain_indented _ v)).append (plain_indentedMembers level rest))
  | .null | .bool _ | .int _ | .float _ | .str _ => plain_scalarText _

theorem plain_indentedItems (level : Nat) : (items : List Json) → Plain (indentedItems level items)
  | [] => (plain_newLine level).append (by decide)
  | v :: rest =>
    .cons (by decide) (((plain_newLine _).append (plain_indented _ v)).append
      (plain_indentedItems level rest))

theorem plain_indentedMembers (level : Nat) :
    (members : List (Text × Json)) → Plain (indentedMembers level members)
  | [] => (plain_newLine level).append (by decide)
  | (k, v) :: rest =>
    .cons (by decide) (((((plain_newLine _).append (plain_quote k)).append (by decide)).append
      (plain_indented _ v)).append (plain_indentedMembers level rest))

end

end Json

end RouteCatalog
