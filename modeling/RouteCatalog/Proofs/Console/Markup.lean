import Mathlib.Data.List.Basic
import Mathlib.Data.List.Infix
import Mathlib.Data.List.TakeWhile
import RouteCatalog.Console.Markup
import RouteCatalog.Proofs.Number.Digits
import RouteCatalog.Proofs.Text.Pattern

/-!
# Markup that can be shown

A renderer accepts some markup and raises a fault for the rest. What consoles document of their
markup is that a text in which no tag starts can be shown, as it is and between the two tags of a
style (`Renderer.Regular`); this is all that is ever asked of a renderer here.

The renderer for consoles without styles is one of these (`regular_render`). Whether it accepts a
text is a matter of the tags alone: every closing tag has to find an open one
(`accepts_render_iff_fits`).
-/

namespace RouteCatalog.Markup

variable {x y t u rest body style : Text} {opened opened' : List Text} {v : Tag}
  {before : Option CodePoint}

/-! ## Renderers -/

/-- The renderer shows the markup. -/
def Renderer.Accepts (render : Renderer) (t : Text) : Prop := ∃ shown, render t = .ok shown

/-- No tag starts in the text, whatever follows it: no backslash, and behind each opening bracket a
character with which no tag starts. -/
def Untagged : Text → Prop
  | [] => True
  | c :: t => c ≠ CodePoint.ofChar '\\' ∧
      (c = CodePoint.ofChar '[' → t.head?.any (!startsBody ·) = true) ∧ Untagged t

instance : ∀ t : Text, Decidable (Untagged t)
  | [] => inferInstanceAs (Decidable True)
  | _ :: t =>
    have := instDecidableUntagged t
    inferInstanceAs (Decidable (_ ∧ _ ∧ _))

theorem untagged_of_forall (h : ∀ c ∈ t, c ≠ CodePoint.ofChar '[' ∧ c ≠ CodePoint.ofChar '\\') :
    Untagged t := by
  induction t with
  | nil => trivial
  | cons c t ih =>
    obtain ⟨⟨hopening, hbackslash⟩, ht⟩ := List.forall_mem_cons.mp h
    exact ⟨hbackslash, fun heq ↦ absurd heq hopening, ih ht⟩

theorem Untagged.append (hx : Untagged x) (hy : Untagged y) : Untagged (x ++ y) := by
  induction x with
  | nil => exact hy
  | cons c x ih =>
    obtain ⟨hbackslash, hopening, hx⟩ := hx
    refine ⟨hbackslash, fun heq ↦ ?_, ih hx⟩
    cases x with
    | nil => exact absurd (hopening heq) Bool.false_ne_true
    | cons d x => exact hopening heq

theorem Untagged.of_suffix (hy : Untagged y) (h : x <:+ y) : Untagged x := by
  induction y with
  | nil => exact List.suffix_nil.mp h ▸ hy
  | cons c y ih =>
    rcases List.suffix_cons_iff.mp h with rfl | h
    · exact hy
    · exact ih hy.2.2 h

theorem untagged_ofNat (n : Nat) : Untagged (Text.ofNat n) := untagged_of_forall fun c hc ↦ by
  have hdigit := (Numeral.allDigits_toDigits n).isAsciiDigit c hc
  constructor <;> rintro rfl <;> exact absurd hdigit (by decide)

theorem untagged_ofInt : ∀ n : Int, Untagged (Text.ofInt n)
  | .ofNat n => untagged_ofNat n
  | .negSucc n => (show Untagged "-" by decide).append (untagged_ofNat (n + 1))

/-- The name of a style, as the tags of the program have it: a lower-case word. -/
def IsWord (style : Text) : Prop := style.isBlank = false ∧ ∀ c ∈ style, c.between 0x61 0x7A = true

instance (style : Text) : Decidable (IsWord style) := inferInstanceAs (Decidable (_ ∧ _))

/-- A piece of markup: a text as it is, or in a style. -/
inductive Piece
  | plain (text : Text)
  | styled (style text : Text)

namespace Piece

def toText : Piece → Text
  | .plain t => t
  | .styled style t => "[" ++ style ++ "]" ++ t ++ "[/" ++ style ++ "]"

/-- The text of the piece has no tags of its own. -/
inductive Tidy : Piece → Prop
  | plain {t : Text} (h : Untagged t) : Tidy (.plain t)
  | styled {style t : Text} (hstyle : IsWord style) (h : Untagged t) : Tidy (.styled style t)

end Piece

/-- What consoles document of their markup: a tag starts with an opening bracket and a small letter
or one of three marks behind it, and texts in which no tag starts are shown, as they are and between
the tags of a style, one after the other. -/
structure Renderer.Regular (render : Renderer) : Prop where
  accepts : ∀ pieces : List Piece, (∀ p ∈ pieces, p.Tidy) →
    render.Accepts (pieces.flatMap Piece.toText)

theorem Renderer.Regular.accepts_untagged {render : Renderer} (h : render.Regular)
    (ht : Untagged t) : render.Accepts t := by
  have haccepts := h.accepts [.plain t] (List.forall_mem_singleton.mpr (.plain ht))
  rwa [List.flatMap_cons, List.flatMap_nil, List.append_nil] at haccepts

/-! ## Single tags -/

/-- What can stand between the brackets of a tag. -/
structure IsBody (body : Text) : Prop where
  starts : body.head?.any startsBody = true
  not_opening : CodePoint.ofChar '[' ∉ body
  not_closing : CodePoint.ofChar ']' ∉ body

/-- A character that does not end a body. -/
def staysInside (c : CodePoint) : Bool := c ≠ CodePoint.ofChar '[' && c ≠ CodePoint.ofChar ']'

theorem isBody_cons_iff {c : CodePoint} :
    IsBody (c :: t) ↔ startsBody c = true ∧ ∀ c ∈ t, staysInside c = true := by
  constructor
  · rintro ⟨hstarts, hopening, hclosing⟩
    refine ⟨hstarts, fun d hd ↦ ?_⟩
    rw [staysInside, Bool.and_eq_true, decide_eq_true_eq, decide_eq_true_eq]
    exact ⟨fun heq ↦ hopening (heq ▸ List.mem_cons_of_mem c hd),
      fun heq ↦ hclosing (heq ▸ List.mem_cons_of_mem c hd)⟩
  · rintro ⟨hstarts, hplain⟩
    refine ⟨hstarts, fun hmem ↦ ?_, fun hmem ↦ ?_⟩
    · rcases List.mem_cons.mp hmem with rfl | hmem
      · exact absurd hstarts (by decide)
      · exact absurd (hplain _ hmem) (by decide)
    · rcases List.mem_cons.mp hmem with rfl | hmem
      · exact absurd hstarts (by decide)
      · exact absurd (hplain _ hmem) (by decide)

/-- What a text is cut into by a character that is the first to fail a test. -/
theorem takeWhile_append_cons {p : CodePoint → Bool} {c : CodePoint} (hx : ∀ d ∈ x, p d = true)
    (hc : p c = false) : (x ++ c :: y).takeWhile p = x := by
  rw [List.takeWhile_append_of_pos hx, List.takeWhile_cons_of_neg (by rw [hc]; simp),
    List.append_nil]

theorem body?_cons (c : CodePoint) (t : Text) :
    body? (c :: t) =
      if startsBody c then
        (Text.dropLiteral? "]" (t.drop (t.takeWhile staysInside).length)).map fun after ↦
          (c :: t.takeWhile staysInside, after)
      else none := rfl

theorem body?_eq_some_iff :
    body? t = some (body, rest) ↔ IsBody body ∧ t = body ++ CodePoint.ofChar ']' :: rest := by
  constructor
  · intro h
    cases t with
    | nil => cases h
    | cons c t =>
      rw [body?_cons] at h
      obtain ⟨hstarts, h⟩ := Option.ite_none_right_eq_some.mp h
      obtain ⟨after, hafter, heq⟩ := Option.map_eq_some_iff.mp h
      cases heq
      refine ⟨isBody_cons_iff.mpr
        ⟨hstarts, fun d hd ↦ List.mem_takeWhile_imp (p := staysInside) hd⟩, ?_⟩
      have hsplit := List.prefix_iff_eq_append.mp (List.takeWhile_prefix (l := t) staysInside)
      rw [Text.dropLiteral?_eq_some_iff.mp hafter] at hsplit
      exact congrArg (c :: ·) hsplit.symm
  · rintro ⟨hbody, rfl⟩
    cases body with
    | nil => exact absurd hbody.starts (by decide)
    | cons c b =>
      obtain ⟨hstarts, hplain⟩ := isBody_cons_iff.mp hbody
      rw [List.cons_append, body?_cons, if_pos hstarts,
        takeWhile_append_cons hplain (by decide), List.drop_left]
      rfl

theorem tag_eq_some_iff :
    tag before t = some (v, rest) ↔
      IsBody v.body ∧ t = List.replicate v.backslashes (CodePoint.ofChar '\\') ++
        CodePoint.ofChar '[' :: (v.body ++ CodePoint.ofChar ']' :: rest) := by
  have hsplit := List.prefix_iff_eq_append.mp
    (List.takeWhile_prefix (l := t) fun c ↦ decide (c = CodePoint.ofChar '\\'))
  simp only [tag, Option.bind_eq_bind, Option.bind_eq_some_iff, Option.pure_def, Option.some.injEq,
    Prod.mk.injEq, Prod.exists, Text.dropLiteral?_eq_some_iff, body?_eq_some_iff]
  constructor
  · rintro ⟨_, hopened, body, after, ⟨hbody, rfl⟩, rfl, rfl⟩
    refine ⟨hbody, ?_⟩
    rw [hopened] at hsplit
    have hbackslashes := List.eq_replicate_iff.mpr ⟨rfl, fun c hc ↦ of_decide_eq_true
      (List.mem_takeWhile_imp (p := fun c ↦ decide (c = CodePoint.ofChar '\\')) (l := t) hc)⟩
    rw [← hbackslashes]
    exact hsplit.symm
  · rintro ⟨hbody, rfl⟩
    obtain ⟨backslashes, body⟩ := v
    have htake := takeWhile_append_cons (p := fun c ↦ decide (c = CodePoint.ofChar '\\'))
      (x := List.replicate backslashes (CodePoint.ofChar '\\')) (c := CodePoint.ofChar '[')
      (y := body ++ CodePoint.ofChar ']' :: rest)
      (fun d hd ↦ decide_eq_true (List.eq_of_mem_replicate hd)) (by decide)
    refine ⟨_, ?_, body, rest, ⟨hbody, rfl⟩, ?_, rfl⟩
    · rw [htake, List.drop_left]
      rfl
    · rw [htake, List.length_replicate]

theorem exists_append_of_tag (h : tag before t = some (v, rest)) :
    ∃ x, x ≠ [] ∧ t = x ++ rest :=
  ⟨List.replicate v.backslashes (CodePoint.ofChar '\\') ++
      CodePoint.ofChar '[' :: (v.body ++ [CodePoint.ofChar ']']),
    by simp, by rw [(tag_eq_some_iff.mp h).2]; simp⟩

/-! ## Open tags -/

/-- The styles that are open after a tag, if the tag fits. -/
def nextOpened (opened : List Text) (v : Tag) : Option (List Text) :=
  if v.backslashes % 2 = 1 then some opened
  else
    let name := v.body.takeWhile (· ≠ CodePoint.ofChar '=')
    match Text.dropLiteral? "/" name with
    | none => some (normalStyle name :: opened)
    | some style =>
      if style.isBlank then
        match opened with
        | [] => none
        | _ :: opened => some opened
      else if opened.contains (normalStyle style) then some (opened.erase (normalStyle style))
      else none

/-- What a tag does to the open styles depends on nothing else that is printed. -/
theorem opened_step (source : Text) (s : State) (o : Occurrence Tag) :
    (State.step source s o).toOption.map State.opened = nextOpened s.opened o.value := by
  unfold State.step nextOpened
  dsimp only
  split
  · rfl
  · rw [State.apply]
    dsimp only
    cases Text.dropLiteral? "/" (o.value.body.takeWhile (· ≠ CodePoint.ofChar '=')) with
    | none => rfl
    | some style =>
      dsimp only
      split
      · cases s.opened with
        | nil => rfl
        | cons style opened => rfl
      · split <;> rfl

theorem opened_foldlM (source : Text) (s : State) (os : List (Occurrence Tag)) :
    (os.foldlM (State.step source) s).toOption.map State.opened =
      (os.map Occurrence.value).foldlM nextOpened s.opened := by
  induction os generalizing s with
  | nil => rfl
  | cons o os ih =>
    rw [List.foldlM_cons, List.map_cons, List.foldlM_cons, ← opened_step source s o]
    cases State.step source s o with
    | error fault => rfl
    | ok next => exact ih next

/-- The tags in a text. -/
def tags (t : Text) : List Tag := (tag.occurrences t).map Occurrence.value

/-- The tags in the text fit together where some styles are open already. -/
def Fits (opened : List Text) (t : Text) : Prop :=
  ((tags t).foldlM nextOpened opened).isSome = true

theorem accepts_render_iff_fits : Renderer.Accepts render t ↔ Fits [] t := by
  rw [Renderer.Accepts, Fits, tags, ← opened_foldlM t ⟨[], [], 0⟩, Option.isSome_map, render]
  cases (tag.occurrences t).foldlM (State.step t) ⟨[], [], 0⟩ with
  | error fault => exact ⟨fun ⟨_, h⟩ ↦ (by cases h), fun h ↦ (by cases h)⟩
  | ok s => exact ⟨fun _ ↦ rfl, fun _ ↦ ⟨_, rfl⟩⟩

/-! ## Texts put together from parts -/

theorem tags_of_declines (h : tag.Declines x y) : tags (x ++ y) = tags y := by
  rw [tags, Pattern.occurrences, Pattern.occurrencesFrom_of_declines h,
    Pattern.value_occurrencesFrom fun _ _ _ ↦ rfl]
  rfl

theorem tags_of_found (h : tag none (x ++ y) = some (v, y)) : tags (x ++ y) = v :: tags y := by
  obtain ⟨x', hne, hx'⟩ := exists_append_of_tag h
  obtain rfl := List.append_cancel_right hx'
  rw [tags, Pattern.occurrences, Pattern.occurrencesFrom_of_found hne h, List.map_cons,
    Pattern.value_occurrencesFrom fun _ _ _ ↦ rfl]
  rfl

theorem Untagged.declines (h : Untagged x) (y : Text) : tag.Declines x y := by
  induction x with
  | nil => trivial
  | cons c x ih =>
    obtain ⟨hbackslash, hopening, hx⟩ := h
    refine ⟨fun before ↦ Option.eq_none_iff_forall_ne_some.mpr fun ⟨v, rest⟩ hfound ↦ ?_, ih hx⟩
    obtain ⟨hbody, heq⟩ := tag_eq_some_iff.mp hfound
    obtain ⟨backslashes, body⟩ := v
    cases backslashes with
    | succ n => exact hbackslash (List.cons.inj heq).1
    | zero =>
      -- A tag starts here, but the character behind the bracket starts no body.
      obtain ⟨rfl, hrest⟩ := List.cons.inj heq
      have hhead := hopening rfl
      have hstarts := hbody.starts
      cases x with
      | nil => exact Bool.false_ne_true hhead
      | cons d x =>
        cases body with
        | nil => exact Bool.false_ne_true hstarts
        | cons e body =>
          obtain rfl := (List.cons.inj hrest).1
          have hnot : startsBody d = false := by simpa using hhead
          exact Bool.false_ne_true (hnot.symm.trans hstarts)

theorem fits_untagged_append (hx : Untagged x) : Fits opened (x ++ y) ↔ Fits opened y := by
  rw [Fits, tags_of_declines (hx.declines y), Fits]

theorem fits_of_found (h : tag none (x ++ y) = some (v, y)) :
    Fits opened (x ++ y) ↔ ∃ opened', nextOpened opened v = some opened' ∧ Fits opened' y := by
  rw [Fits, tags_of_found h, List.foldlM_cons]
  cases nextOpened opened v with
  | none => simp
  | some opened' => simp [Fits]

/-! ## Names of styles -/

namespace IsWord

theorem not_mem (h : IsWord style) {c : CodePoint} (hc : c.between 0x61 0x7A = false) : c ∉ style :=
  fun hmem ↦ by
    rw [h.2 c hmem] at hc
    cases hc

theorem isBody (h : IsWord style) : IsBody style where
  starts := by
    cases style with
    | nil => exact absurd h.1 (by decide)
    | cons c t =>
      have hc := h.2 c List.mem_cons_self
      simp [startsBody, hc]
  not_opening := h.not_mem (by decide)
  not_closing := h.not_mem (by decide)

theorem isBody_closing (h : IsWord style) : IsBody (CodePoint.ofChar '/' :: style) where
  starts := by
    rw [List.head?_cons]
    decide
  not_opening := List.not_mem_cons_of_ne_of_not_mem (by decide) (h.not_mem (by decide))
  not_closing := List.not_mem_cons_of_ne_of_not_mem (by decide) (h.not_mem (by decide))

theorem takeWhile_eq (h : IsWord style) :
    style.takeWhile (· ≠ CodePoint.ofChar '=') = style :=
  List.takeWhile_eq_self_iff.mpr fun c hc ↦
    decide_eq_true (ne_of_mem_of_not_mem hc (h.not_mem (by decide)))

theorem dropLiteral?_eq_none (h : IsWord style) : Text.dropLiteral? "/" style = none := by
  refine Option.eq_none_iff_forall_ne_some.mpr fun rest hrest ↦ ?_
  rw [Text.dropLiteral?_eq_some_iff.mp hrest] at h
  exact h.not_mem (c := CodePoint.ofChar '/') (by decide) List.mem_cons_self

theorem nextOpened_opening (h : IsWord style) (opened : List Text) :
    nextOpened opened ⟨0, style⟩ = some (normalStyle style :: opened) := by
  unfold nextOpened
  dsimp only
  rw [h.takeWhile_eq, h.dropLiteral?_eq_none]
  rfl

theorem nextOpened_closing (h : IsWord style) (hopened : normalStyle style ∈ opened) :
    nextOpened opened ⟨0, CodePoint.ofChar '/' :: style⟩ =
      some (opened.erase (normalStyle style)) := by
  have hclosing : Text.dropLiteral? "/" (CodePoint.ofChar '/' :: style) = some style :=
    Text.dropLiteral?_eq_some_iff.mpr rfl
  unfold nextOpened
  dsimp only
  rw [List.takeWhile_cons_of_pos (by decide), h.takeWhile_eq, hclosing]
  dsimp only
  rw [if_neg (by decide), if_neg (by rw [h.1]; decide),
    if_pos (List.contains_iff_mem.mpr hopened)]

end IsWord

/-- After the opening tag of a style the text has to fit where the style is open. -/
theorem fits_opening (h : IsWord style) :
    Fits opened ("[" ++ (style ++ ("]" ++ y))) ↔ Fits (normalStyle style :: opened) y := by
  have hfound : tag none (("[" ++ (style ++ "]")) ++ y) = some (⟨0, style⟩, y) :=
    tag_eq_some_iff.mpr ⟨h.isBody, by simp [Text.ofString]⟩
  have heq : ("[" ++ (style ++ ("]" ++ y)) : Text) = ("[" ++ (style ++ "]")) ++ y := by
    rw [List.append_assoc, List.append_assoc]
  rw [heq, fits_of_found hfound, h.nextOpened_opening]
  simp

/-- After the closing tag of a style the text has to fit where the style is closed. -/
theorem fits_closing (h : IsWord style) (hopened : normalStyle style ∈ opened) :
    Fits opened ("[/" ++ (style ++ ("]" ++ y))) ↔
      Fits (opened.erase (normalStyle style)) y := by
  have hfound : tag none (("[/" ++ (style ++ "]")) ++ y) =
      some (⟨0, CodePoint.ofChar '/' :: style⟩, y) :=
    tag_eq_some_iff.mpr ⟨h.isBody_closing, by simp [Text.ofString]⟩
  have heq : ("[/" ++ (style ++ ("]" ++ y)) : Text) = ("[/" ++ (style ++ "]")) ++ y := by
    rw [List.append_assoc, List.append_assoc]
  rw [heq, fits_of_found hfound, h.nextOpened_closing hopened]
  simp

theorem fits_styled_append (h : IsWord style) (hu : Untagged u) :
    Fits opened ("[" ++ (style ++ ("]" ++ (u ++ ("[/" ++ (style ++ ("]" ++ y))))))) ↔
      Fits opened y := by
  rw [fits_opening h, fits_untagged_append hu, fits_closing h List.mem_cons_self,
    List.erase_cons_head]

/-! ## Pieces -/

theorem fits_nil (opened : List Text) : Fits opened [] := rfl

theorem Piece.Tidy.fits_append {p : Piece} (h : p.Tidy) :
    Fits opened (p.toText ++ y) ↔ Fits opened y := by
  cases h with
  | plain h => exact fits_untagged_append h
  | styled hstyle h =>
    simp only [Piece.toText, List.append_assoc]
    exact fits_styled_append hstyle h

theorem fits_pieces {pieces : List Piece} (h : ∀ p ∈ pieces, p.Tidy) (opened : List Text) :
    Fits opened (pieces.flatMap Piece.toText) := by
  induction pieces with
  | nil => exact fits_nil opened
  | cons p pieces ih =>
    obtain ⟨hp, hpieces⟩ := List.forall_mem_cons.mp h
    rw [List.flatMap_cons, hp.fits_append]
    exact ih hpieces

theorem regular_render : Renderer.Regular render where
  accepts _ h := accepts_render_iff_fits.mpr (fits_pieces h [])

end RouteCatalog.Markup
