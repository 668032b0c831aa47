import RouteCatalog.Proofs.Text.Ascii
import RouteCatalog.Yaml.Style
import RouteCatalog.Yaml.Token.All

/-!
# The characters of written scalars

However a scalar is written, its text is made of the visible characters of ASCII, blanks and line
feeds (`Style.printed_value`). Such a text is stored as it is, and may be read as a document.
-/

namespace RouteCatalog

theorem Text.dropLiteral?_cons_of_ne {a c : CodePoint} (h : a ≠ c) (literal t : Text) :
    dropLiteral? (a :: literal) (c :: t) = none := if_neg h

theorem Text.startsWith_cons_of_ne {a c : CodePoint} (h : a ≠ c) (literal t : Text) :
    startsWith (a :: literal) (c :: t) = false := by
  rw [startsWith, dropLiteral?_cons_of_ne h]
  rfl

namespace Yaml

namespace Style

variable {c : CodePoint} {s t : Text}

/-! ## Characters -/

theorem isSimple_iff : isSimple c = true ↔ 0x20 ≤ c.toNat ∧ c.toNat ≤ 0x7E := by
  rw [isSimple, CodePoint.between, Bool.and_eq_true, decide_eq_true_eq, decide_eq_true_eq]

theorem isBreak_of_isSimple (h : isSimple c = true) : Token.isBreak c = false := by
  rw [isSimple_iff] at h
  have hfeed : c ≠ CodePoint.ofChar '\n' := by
    rintro rfl
    exact absurd h (by decide)
  simp only [Token.isBreak, Bool.or_eq_false_iff, decide_eq_false_iff_not]
  exact ⟨⟨⟨hfeed, by omega⟩, by omega⟩, by omega⟩

theorem isSpace_of_isSimple (h : isSimple c = true) (hblank : c ≠ ' ') :
    Token.isSpace c = false := by
  have htab : c ≠ CodePoint.ofChar '\t' := by
    rintro rfl
    exact absurd h (by decide)
  simp only [Token.isSpace, Bool.or_eq_false_iff, decide_eq_false_iff_not]
  exact ⟨hblank, htab⟩

/-! ## Texts -/

/-- Visible characters, blanks and line feeds. -/
def Printed (t : Text) : Prop := ∀ c ∈ t, isSimple c = true ∨ c = '\n'

instance (t : Text) : Decidable (Printed t) := inferInstanceAs (Decidable (∀ c ∈ t, _))

namespace Printed

theorem nil : Printed [] := fun _ h ↦ absurd h List.not_mem_nil

theorem cons (hc : isSimple c = true) (ht : Printed t) : Printed (c :: t) :=
  List.forall_mem_cons.mpr ⟨.inl hc, ht⟩

theorem append (hs : Printed s) (ht : Printed t) : Printed (s ++ t) := by
  intro c hc
  rcases List.mem_append.mp hc with h | h
  · exact hs c h
  · exact ht c h

theorem newLine (indent : Nat) : Printed (newLine indent) := by
  refine List.forall_mem_cons.mpr ⟨.inr rfl, fun c hc ↦ .inl ?_⟩
  rw [List.eq_of_mem_replicate hc]
  decide

theorem flatMap {α : Type} {l : List α} {f : α → Text} (h : ∀ a ∈ l, Printed (f a)) :
    Printed (l.flatMap f) := by
  intro c hc
  obtain ⟨a, ha, hmem⟩ := List.mem_flatMap.mp hc
  exact h a ha c hmem

/-- A printed text is stored as it is. -/
theorem plain (h : Printed t) : t.Plain := by
  intro c hc
  rcases h c hc with hsimple | rfl
  · rw [isSimple_iff] at hsimple
    refine ⟨by omega, ?_⟩
    rintro rfl
    exact absurd hsimple (by decide)
  · decide

theorem all_isPrintable (h : Printed t) : t.all Token.isPrintable = true := by
  rw [List.all_eq_true]
  intro c hc
  rcases h c hc with hsimple | rfl
  · have hbetween : c.between 0x20 0x7E = true := hsimple
    simp only [Token.isPrintable, hbetween, Bool.or_true, Bool.true_or]
  · decide

end Printed

/-! ## Written scalars -/

theorem printed_plain (h : ∀ c ∈ t, isSimple c = true) (indent column : Nat)
    (before : Option CodePoint) : Printed (plain indent column before t) := by
  induction t generalizing column before with
  | nil => exact .nil
  | cons c t ih =>
    obtain ⟨hc, ht⟩ := List.forall_mem_cons.mp h
    rw [plain]
    split
    · exact (Printed.newLine indent).append (ih ht _ _)
    · exact (ih ht _ _).cons hc

theorem printed_single (h : Printed t) (indent column : Nat) (before : Option CodePoint) :
    Printed (single indent column before t) := by
  have hfeed : Printed "\n" := by decide
  induction t generalizing column before with
  | nil => exact .nil
  | cons c t ih =>
    obtain ⟨hc, ht⟩ := List.forall_mem_cons.mp h
    rw [single]
    split
    · have hfirst : Printed (if before = some '\n' then [] else "\n") := by
        split
        · exact .nil
        · exact hfeed
      dsimp only
      split
      · exact (hfirst.append hfeed).append (ih ht _ _)
      · exact (hfirst.append (.newLine indent)).append (ih ht _ _)
    · next hne =>
      have hc := hc.resolve_right hne
      split
      · exact (Printed.newLine indent).append (ih ht _ _)
      · split
        · exact ((ih ht _ _).cons (by decide)).cons (by decide)
        · exact (ih ht _ _).cons hc

/-- An upper-case hexadecimal digit. -/
def upperDigit (d : Nat) : CodePoint :=
  if (hexDigit d).between 0x61 0x66 then .ofNat ((hexDigit d).toNat - 0x20) else hexDigit d

theorem upperHex_succ (width n : Nat) :
    upperHex (width + 1) n = upperHex width (n / 16) ++ [upperDigit (n % 16)] := by
  rw [upperHex, Text.ofHex, List.map_append]
  rfl

theorem printed_upperHex (width n : Nat) : Printed (upperHex width n) := by
  have hdigit : ∀ d < 16, isSimple (upperDigit d) = true := by decide
  induction width generalizing n with
  | zero => exact .nil
  | succ width ih =>
    rw [upperHex_succ]
    exact (ih (n / 16)).append (Printed.nil.cons (hdigit _ (Nat.mod_lt n (by decide))))

theorem printed_of_escape? {e : Text} (h : escape? c = some e) : Printed e := by
  have hshort : ∀ pair ∈ shortEscapes, isSimple pair.2 = true := by decide
  rw [escape?] at h
  split at h
  · next e' hlookup =>
    cases h
    obtain ⟨before, after, htable, -⟩ := List.lookup_eq_some_iff.mp hlookup
    have hmem : (c, e') ∈ shortEscapes := htable ▸ List.mem_append_right _ List.mem_cons_self
    exact (Printed.nil.cons (hshort _ hmem)).cons (by decide)
  · split at h
    · cases h
    · split at h
      · cases h
        exact Printed.append (by decide) (printed_upperHex _ _)
      · split at h
        · cases h
          exact Printed.append (by decide) (printed_upperHex _ _)
        · cases h
          exact Printed.append (by decide) (printed_upperHex _ _)

theorem isSimple_of_escape? (h : escape? c = none) : isSimple c = true := by
  rw [escape?] at h
  split at h
  · cases h
  · split at h
    · assumption
    · split at h
      · cases h
      · split at h <;> cases h

theorem printed_brokenLine (indent : Nat) (t : Text) : Printed (brokenLine indent t).1 := by
  have hslash : Printed "\\" := by decide
  rw [brokenLine]
  split
  · exact (hslash.append (.newLine indent)).append hslash
  · exact hslash.append (.newLine indent)

theorem printed_double (mayBreak : Bool) (indent column : Nat) (first fresh : Bool) (t : Text) :
    Printed (double mayBreak indent column first fresh t) := by
  induction t generalizing column first fresh with
  | nil => exact .nil
  | cons c t ih =>
    rw [double]
    split
    · next e hescape =>
      have he := printed_of_escape? hescape
      dsimp only
      split
      · exact (he.append (printed_brokenLine indent t)).append (ih _ _ _)
      · exact he.append (ih _ _ _)
    · next hescape =>
      have hc := isSimple_of_escape? hescape
      dsimp only
      split
      · exact (printed_brokenLine indent _).append ((ih _ _ _).cons hc)
      · exact (ih _ _ _).cons hc

theorem choose_spec (isPlain isKey : Bool) (t : Text) :
    match choose isPlain isKey t with
    | .plain => isPlain = true ∧ allowsPlain t = true
    | .single => allowsSingle t = true
    | .double => True := by
  rw [choose]
  split
  · next h =>
    split at h
    · next hplain =>
      rw [Bool.and_eq_true, Bool.and_eq_true] at hplain
      exact hplain.1
    · split at h <;> cases h
  · next h =>
    split at h
    · cases h
    · split at h
      · next hsingle =>
        rw [Bool.and_eq_true] at hsingle
        exact hsingle.1
      · cases h
  · trivial

theorem isSimple_of_allowsPlain (h : allowsPlain t = true) : ∀ c ∈ t, isSimple c = true := by
  simp only [allowsPlain, Bool.and_eq_true] at h
  exact List.all_eq_true.mp h.1.1.1.1

theorem printed_of_allowsSingle (h : allowsSingle t = true) : Printed t := by
  rw [allowsSingle, Bool.and_eq_true, List.all_eq_true] at h
  intro c hc
  have hcharacter := h.1 c hc
  rwa [Bool.or_eq_true, decide_eq_true_eq] at hcharacter

/-- **A written scalar is made of visible characters, blanks and line feeds.** -/
theorem printed_value (isPlain : Bool) (indent column : Nat) (t : Text) :
    Printed (value isPlain indent column t) := by
  have hspec := choose_spec isPlain false t
  have hquote : Printed "'" := by decide
  have hquotes : Printed "\"" := by decide
  rw [value]
  cases hchoice : choose isPlain false t with
  | plain =>
    rw [hchoice] at hspec
    exact printed_plain (isSimple_of_allowsPlain hspec.2) _ _ _
  | single =>
    rw [hchoice] at hspec
    exact (hquote.append (printed_single (printed_of_allowsSingle hspec) _ _ _)).append hquote
  | double => exact (hquotes.append (printed_double _ _ _ _ _ _)).append hquotes

end Style

end Yaml

end RouteCatalog
