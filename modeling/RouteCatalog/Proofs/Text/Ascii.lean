import Mathlib.Data.List.Basic
import RouteCatalog.Text.Utf8

/-!
# Plain text

A text of ASCII characters without carriage returns survives being stored: its bytes decode to it,
and the unification of line ends leaves it alone.
-/

namespace RouteCatalog

/-- A character of ASCII that is no carriage return. -/
def CodePoint.Plain (c : CodePoint) : Prop := c.toNat < 0x80 ∧ c ≠ '\r'

instance : DecidablePred CodePoint.Plain := fun c ↦
  inferInstanceAs (Decidable (c.toNat < 0x80 ∧ c ≠ CodePoint.ofChar '\r'))

/-- What a check of all of ASCII shows of one class of characters, holds of the class. -/
theorem CodePoint.of_ascii {p q : CodePoint → Bool} {c : CodePoint} (hlow : c.toNat < 0x80)
    (h : ∀ n < 0x80, q (.ofNat n) = true → p (.ofNat n) = true) (hc : q c = true) :
    p c = true := by
  have hself := h c.toNat hlow
  rw [ofNat_toNat] at hself
  exact hself hc

/-- A text of such characters. -/
def Text.Plain (t : Text) : Prop := ∀ c ∈ t, c.Plain

instance (t : Text) : Decidable t.Plain := inferInstanceAs (Decidable (∀ c ∈ t, c.Plain))

namespace Text.Plain

variable {s t : Text}

theorem nil : Plain [] := by simp [Plain]

theorem cons {c : CodePoint} (hc : c.Plain) (ht : Plain t) : Plain (c :: t) :=
  List.forall_mem_cons.mpr ⟨hc, ht⟩

theorem append (hs : Plain s) (ht : Plain t) : Plain (s ++ t) := by
  intro c hc
  rcases List.mem_append.mp hc with h | h
  · exact hs c h
  · exact ht c h

theorem replicate {c : CodePoint} (hc : c.Plain) (n : Nat) : Plain (List.replicate n c) := by
  intro d hd
  rw [List.eq_of_mem_replicate hd]
  exact hc

theorem flatMap {α : Type} {l : List α} {f : α → Text} (h : ∀ a ∈ l, Plain (f a)) :
    Plain (l.flatMap f) := by
  intro c hc
  obtain ⟨a, ha, hmem⟩ := List.mem_flatMap.mp hc
  exact h a ha c hmem

end Text.Plain

/-! ## Storing -/

namespace Utf8

theorem itemsFrom_encode {t : Text} (ht : t.Plain) (position : Nat) :
    itemsFrom position none (encode t) = t.map .ok := by
  induction t generalizing position with
  | nil => rfl
  | cons c t ih =>
    have hc : c.toNat < 0x80 := (ht c List.mem_cons_self).1
    have hbyte : (UInt8.ofNat c.toNat).toNat = c.toNat := by
      rw [UInt8.toNat_ofNat']
      exact Nat.mod_eq_of_lt (by omega)
    have hchar : encodeChar c = [.ofNat c.toNat] := if_pos hc
    have hfirst : first c.toNat = .whole := if_pos hc
    rw [encode, List.flatMap_cons, hchar, List.singleton_append, itemsFrom, hbyte, startAt, hfirst]
    dsimp only
    rw [← encode, ih (fun d hd ↦ ht d (List.mem_cons_of_mem c hd)), CodePoint.ofNat_toNat]
    rfl

/-- **The bytes of a plain text decode to it.** -/
theorem decode_encode {t : Text} (ht : t.Plain) : decode (encode t) = .ok t := by
  rw [decode, items, itemsFrom_encode ht, List.mapM_map]
  rw [show (id ∘ Except.ok : CodePoint → Except Fault CodePoint) = (pure ·) from rfl,
    List.mapM_pure, List.map_id']
  rfl

end Utf8

theorem Text.unifyNewlines_of_plain {t : Text} (ht : t.Plain) : t.unifyNewlines = t := by
  induction t with
  | nil => rfl
  | cons c t ih =>
    have hc : c ≠ '\r' := (ht c List.mem_cons_self).2
    cases t with
    | nil => rw [unifyNewlines, if_neg hc]
    | cons d t => rw [unifyNewlines, if_neg hc, ih fun e he ↦ ht e (List.mem_cons_of_mem c he)]

end RouteCatalog
