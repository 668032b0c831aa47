import RouteCatalog.Proofs.Route.Appended
import RouteCatalog.Proofs.Text.LineFeed

/-!
# Declarations in texts that differ in line feeds

Between the parts of a declaration there may be blanks, so line feeds make no difference there. They
do make one within a quoted path. A declaration is found with a front that ends with the quotation
mark after its path (`Dialect.Addressed`), and with it the place of its path
(`Pattern.pathSpan?`). Line feeds that are put elsewhere leave the declarations as they are
(`Declaration.spreads_fluentCall`, `spreads_registration`, `spreads_decorator`).
-/

namespace RouteCatalog

open Text

namespace Declaration

/-! ## Parts without a path -/

theorem lineFeed_notMem_of_sameLetters {word written : Text}
    (hword : ∀ letter ∈ word, letter.between 0x61 0x7A = true) (h : SameLetters word written) :
    CodePoint.ofChar '\n' ∉ written := by
  induction h with
  | nil => exact List.not_mem_nil
  | cons hletter _ ih =>
    obtain ⟨hfirst, hrest⟩ := List.forall_mem_cons.mp hword
    refine List.not_mem_cons_of_ne_of_not_mem ?_ (ih hrest)
    rintro rfl
    exact absurd (CodePoint.isBlank_of_sameLetter hfirst hletter) (by decide)

section Parts

variable {R : Text → Text → Prop} (hR : Respacing R)
include hR

theorem keeps_dropWord? {word : Text} (hword : ∀ letter ∈ word, letter.between 0x61 0x7A = true) :
    Keeps R R (dropWord? word) := by
  intro t t' rest ht h
  obtain ⟨written, hwritten, rfl⟩ := dropWord?_eq_some_iff.mp h
  obtain ⟨s, rfl, hs⟩ := hR.append (lineFeed_notMem_of_sameLetters hword hwritten) ht
  exact ⟨s, dropWord?_eq_some_iff.mpr ⟨written, hwritten, rfl⟩, hs⟩

theorem keeps_dropSpaced? {literal : Text} (h : CodePoint.ofChar '\n' ∉ literal) :
    Keeps R R (dropSpaced? literal) :=
  hR.keeps_trimLeft (hR.keeps_dropLiteral? h)

theorem keeps_dropQuote? : Keeps R R dropQuote? := by
  intro t t' rest ht h
  obtain ⟨mark, hmark, rfl⟩ := dropQuote?_eq_some_iff.mp h
  obtain ⟨s, rfl⟩ := hR.head ht
  refine ⟨s, dropQuote?_eq_some_iff.mpr ⟨mark, hmark, rfl⟩, hR.tail ?_ ht⟩
  rintro rfl
  exact absurd hmark (by decide)

theorem keeps_verb : Keeps R (Beside R) (anyWord? verbWords) := by
  have hletters : ∀ word ∈ verbWords, ∀ letter ∈ word, letter.between 0x61 0x7A = true := by decide
  rintro t t' ⟨verb, rest⟩ ht h
  obtain ⟨word, hword, hdrop⟩ := List.exists_of_findSome?_eq_some h
  obtain ⟨rest, hrest, heq⟩ := Option.map_eq_some_iff.mp hdrop
  cases heq
  obtain ⟨written, hwritten, rfl⟩ := dropWord?_eq_some_iff.mp hrest
  obtain ⟨s, rfl, hs⟩ :=
    hR.append (lineFeed_notMem_of_sameLetters (hletters word hword) hwritten) ht
  rw [hwritten.length_eq, List.take_left]
  exact ⟨(written, s), anyWord?_of_isVerb (isVerb_of_sameLetters hword hwritten) s, rfl, hs⟩

theorem keeps_registrationOpening (before : Option CodePoint) :
    Keeps R (Beside R) (registrationOpening before) := by
  have hopening : Keeps R (Beside R) fun t ↦ (dropWord? "route" t).bind fun t ↦
      (dropSpaced? "(" t).bind fun t ↦ (dropSpaced? "\x7b" t).bind fun rest ↦ some ((), rest) :=
    (keeps_dropWord? hR (by decide)).bind ((keeps_dropSpaced? hR (by decide)).bind
      ((keeps_dropSpaced? hR (by decide)).bind (keeps_found ())))
  intro t t' found ht h
  unfold registrationOpening at h ⊢
  split at h
  · cases h
  · next hbefore =>
    rw [if_neg hbefore]
    exact hopening ht h

theorem keeps_dropFieldName? {name : Text}
    (hname : ∀ letter ∈ name, letter.between 0x61 0x7A = true) : Keeps R R (dropFieldName? name) :=
  (keeps_dropWord? hR hname).bind (keeps_dropSpaced? hR (by decide))

theorem keeps_methodField : Keeps R (Beside R) (methodField none) :=
  (keeps_dropFieldName? hR (by decide)).bind ((hR.keeps_trimLeft (keeps_dropQuote? hR)).bind
    ((keeps_verb hR).bind (.beside fun verb ↦ (keeps_dropQuote? hR).bind (keeps_found verb))))

theorem keeps_registrationClosing : Keeps R (Beside R) (registrationClosing none) :=
  (hR.keeps_dropLiteral? (by decide)).bind
    ((keeps_dropSpaced? hR (by decide)).bind (keeps_found ()))

theorem keeps_decoratorName : Keeps R (Beside R) fun t ↦ decoratorNames.findSome? fun name ↦
    (dropLiteral? name t).map fun rest ↦ (name, rest) := by
  have hfeed : ∀ name ∈ decoratorNames, CodePoint.ofChar '\n' ∉ name := by decide
  have hfirst : ∀ name ∈ decoratorNames, ∀ t : Text, (decoratorNames.findSome? fun name' ↦
      (dropLiteral? name' (name ++ t)).map fun rest ↦ (name', rest)) = some (name, t) := by
    simp only [decoratorNames, List.forall_mem_cons, List.not_mem_nil, false_implies, implies_true,
      and_true]
    exact ⟨fun _ ↦ rfl, fun _ ↦ rfl, fun _ ↦ rfl, fun _ ↦ rfl⟩
  rintro t t' found ht h
  obtain ⟨name, hname, hdrop⟩ := List.exists_of_findSome?_eq_some h
  obtain ⟨rest, hrest, rfl⟩ := Option.map_eq_some_iff.mp hdrop
  obtain rfl := dropLiteral?_eq_some_iff.mp hrest
  obtain ⟨s, rfl, hs⟩ := hR.append (hfeed name hname) ht
  exact ⟨(name, s), hfirst name hname s, rfl, hs⟩

end Parts

/-! ## Quoted paths -/

/-- The last `n` characters of a text start within a path, or with the quotation mark that closes
it, which is the character before what follows. -/
def Cut {α : Type} (path : α → Text) (n : Nat) (found : α × Text) : Prop :=
  found.2.length < n ∧ n ≤ found.2.length + (path found.1).length

/-- The same is found, unless the line feeds stand in its path. -/
def Apart {α : Type} (path : α → Text) (tail : Text) (m n : Nat) (found found' : α × Text) : Prop :=
  Spread tail m n found.2 found'.2 ∧ (found'.1 = found.1 ∨ Cut path tail.length found)

section Paths

variable {tail : Text} {m n : Nat}

theorem unquoted_insert {x y : Text} {k : Nat} :
    Unquoted (x ++ CodePoint.ofChar '\n' :: (lineFeeds k ++ y)) ↔ Unquoted x ∧ Unquoted y := by
  have hfeeds : ∀ c ∈ lineFeeds k, isQuote c = false := fun c hc ↦ by
    rw [List.eq_of_mem_replicate hc]
    decide
  simp only [Unquoted, List.forall_mem_append, List.forall_mem_cons]
  exact ⟨fun ⟨hx, _, _, hy⟩ ↦ ⟨hx, hy⟩, fun ⟨hx, hy⟩ ↦ ⟨hx, by decide, hfeeds, hy⟩⟩

theorem keeps_quoted? : Keeps (Spread tail m n) (Apart id tail m n) quoted? := by
  rintro t t' ⟨path, rest⟩ ht h
  obtain ⟨mark, mark', hmark, hmark', rfl⟩ := exists_of_quoted? h
  have hpath := unquoted_of_quoted? h
  have hfeed : isQuote (CodePoint.ofChar '\n') ≠ true := by decide
  rcases ht with ⟨rfl, hle⟩ | ⟨x, hx, rfl⟩
  · refine ⟨(path, rest), h, .inl ⟨rfl, ?_⟩, .inl rfl⟩
    simp only [List.length_cons, List.length_append] at hle
    dsimp only
    omega
  cases x with
  | nil => exact absurd ((List.cons.inj hx).1 ▸ hmark) hfeed
  | cons c x =>
    rw [List.cons_append, List.cons.injEq] at hx
    obtain ⟨rfl, hx⟩ := hx
    rcases List.append_eq_append_iff.mp hx with ⟨y, rfl, hrest⟩ | ⟨y, rfl, htail⟩
    · cases y with
      | nil => exact absurd ((List.cons.inj hrest).1 ▸ hmark') hfeed
      | cons c y =>
        -- The line feeds stand after the closing quotation mark.
        obtain ⟨rfl, rfl⟩ := List.cons.inj hrest
        refine ⟨(path, _), ?_, .inr ⟨y, rfl, rfl⟩, .inl rfl⟩
        rw [List.cons_append, List.append_assoc]
        exact quoted?_of_unquoted hmark hmark' hpath _
    · cases y with
      | nil => exact absurd ((List.cons.inj htail).1 ▸ hmark') hfeed
      | cons c y =>
        rw [List.cons_append, List.cons.injEq] at htail
        obtain ⟨rfl, htail⟩ := htail
        obtain ⟨y, rfl, rfl⟩ := exists_of_lineFeeds_append (fun heq ↦ hfeed (heq ▸ hmark')) htail
        refine ⟨(x ++ CodePoint.ofChar '\n' :: (lineFeeds n ++ y), rest), ?_, ?_, .inr ⟨?_, ?_⟩⟩
        · have hpath' : Unquoted (x ++ CodePoint.ofChar '\n' :: (lineFeeds n ++ y)) :=
            unquoted_insert.mpr (unquoted_insert.mp hpath)
          have hread := quoted?_of_unquoted hmark hmark' hpath' rest
          simpa only [List.append_assoc, List.cons_append] using hread
        · refine .inl ⟨rfl, ?_⟩
          simp only [List.length_cons, List.length_append]
          omega
        · simp only [List.length_cons, List.length_append]
          omega
        · simp only [id, List.length_cons, List.length_append]
          omega

theorem keeps_quotedNonempty? : Keeps (Spread tail m n) (Apart id tail m n) quotedNonempty? := by
  rintro t t' ⟨path, rest⟩ ht h
  obtain ⟨hquoted, hne⟩ := quotedNonempty?_eq_some_iff.mp h
  obtain ⟨⟨path', rest'⟩, hquoted', hrest, hpath⟩ := keeps_quoted? ht hquoted
  refine ⟨(path', rest'), quotedNonempty?_eq_some_iff.mpr ⟨hquoted', ?_⟩, hrest, hpath⟩
  rintro rfl
  -- An empty path is not cut, so it was empty before.
  obtain ⟨found, hback, -, hsame⟩ := keeps_quoted? ht.symm hquoted'
  rw [hquoted] at hback
  cases hback
  rcases hsame with rfl | ⟨hlt, hle⟩
  · exact hne rfl
  · exact absurd hlt (Nat.not_lt.mpr hle)

theorem keeps_urlField : Keeps (Spread tail m n) (Apart id tail m n) (urlField none) :=
  (keeps_dropFieldName? (respacing_spread tail m n) (by decide)).bind
    ((respacing_spread tail m n).keeps_trimLeft keeps_quotedNonempty?)

theorem keeps_declaration (verb : Text) :
    Keeps (Apart id tail m n) (Apart Declaration.path tail m n) fun (path, rest) ↦
      some (⟨verb, path⟩, rest) := by
  rintro ⟨path, rest⟩ ⟨path', rest'⟩ _ ⟨hrest, hpath⟩ ⟨⟩
  exact ⟨_, rfl, hrest, hpath.imp_left (congrArg (Declaration.mk verb))⟩

end Paths

/-! ## Searching for fields -/

theorem dropWord?_of_isBlank {letter c : CodePoint} (hletter : letter.between 0x61 0x7A = true)
    (hc : c.isBlank = true) (word t : Text) : dropWord? (letter :: word) (c :: t) = none := by
  rw [dropWord?, sameLetter_of_isBlank hletter hc]
  rfl

theorem dropFieldName?_of_isBlank {letter c : CodePoint} (hletter : letter.between 0x61 0x7A = true)
    (hc : c.isBlank = true) (name t : Text) : dropFieldName? (letter :: name) (c :: t) = none := by
  rw [dropFieldName?, dropWord?_of_isBlank hletter hc]
  rfl

section Fields

variable (tail : Text) (m n : Nat)

theorem keeps_first?_methodField :
    Keeps (Spread tail m n) (Beside (Spread tail m n)) (methodField.first? none) := by
  refine keeps_first?_spread (fun _ _ _ ↦ rfl) (fun c t hc ↦ ?_)
    (fun m n ↦ keeps_methodField (respacing_spread tail m n)) m n
  rw [methodField, show Text.ofString "method" = CodePoint.ofChar 'm' :: "ethod" from rfl,
    dropFieldName?_of_isBlank (by decide) hc]
  rfl

theorem keeps_first?_urlField :
    Keeps (Spread tail m n) (Apart id tail m n) (urlField.first? none) := by
  refine keeps_first?_spread (fun _ _ _ ↦ rfl) (fun c t hc ↦ ?_) (fun _ _ ↦ keeps_urlField) m n
  rw [urlField, show Text.ofString "url" = CodePoint.ofChar 'u' :: "rl" from rfl,
    dropFieldName?_of_isBlank (by decide) hc]
  rfl

theorem keeps_closing? : Keeps (Spread tail m n) (Spread tail m n) closing? := by
  intro t t' rest ht h
  obtain ⟨⟨_, _⟩, hfound, rfl⟩ := Option.map_eq_some_iff.mp h
  have hblank (c : CodePoint) (t : Text) (hc : c.isBlank = true) :
      registrationClosing none (c :: t) = none := by
    have hne : CodePoint.ofChar '\x7d' ≠ c := by
      rintro rfl
      exact absurd hc (by decide)
    exact Option.bind_eq_none_iff.mpr fun rest hrest ↦
      absurd (List.cons.inj (dropLiteral?_eq_some_iff.mp hrest)).1.symm hne
  obtain ⟨⟨_, rest'⟩, hfound', -, hrest⟩ := keeps_first?_spread (fun _ _ _ ↦ rfl) hblank
    (fun m n ↦ keeps_registrationClosing (respacing_spread tail m n)) m n ht hfound
  exact ⟨rest', Option.map_eq_some_iff.mpr ⟨_, hfound', rfl⟩, hrest⟩

end Fields

/-! ## Fronts of declarations -/

/-- A registration up to the quotation mark that closes its path. -/
def addressedRegistration : Pattern Declaration := fun before t ↦ do
  let ((), t) ← registrationOpening before t
  let (verb, t) ← methodField.first? none t
  let (path, rest) ← urlField.first? none t
  return (⟨verb, path⟩, rest)

/-- A decorator up to its argument. -/
def decoratorOpening (t : Text) : Option (Text × Text) := do
  let t ← Text.dropLiteral? "@" t
  let (verb, t) ← decoratorNames.findSome? fun name ↦
    (Text.dropLiteral? name t).map fun rest ↦ (name, rest)
  let rest ← dropSpaced? "(" t
  return (verb, rest)

/-- A decorator up to the quotation mark that closes its path. -/
def addressedDecorator : Pattern Declaration := fun _ t ↦ do
  let (verb, t) ← decoratorOpening t
  let (path, rest) ← quoted? t.trimLeft
  return (⟨verb, path⟩, rest)

/-- A decorator without a path. -/
def bareDecorator (t : Text) : Option (Declaration × Text) := do
  let (verb, t) ← decoratorOpening t
  let rest ← dropSpaced? ")" t.trimLeft
  return (⟨verb, []⟩, rest)

/-- A declaration is its front, if there is one, and what closes it. -/
def ClosedBy (pattern front : Pattern Declaration) (close : Text → Option Text)
    (bare : Text → Option (Declaration × Text)) : Prop :=
  ∀ before t, pattern before t =
    (front before t).elim (bare t) fun (d, t) ↦ (close t).map fun rest ↦ (d, rest)

theorem closedBy_fluentCall : ClosedBy fluentCall fluentCall some fun _ ↦ none := by
  intro before t
  cases fluentCall before t <;> rfl

theorem closedBy_registration :
    ClosedBy registration addressedRegistration closing? fun _ ↦ none := by
  intro before t
  have hbind : registration before t = (addressedRegistration before t).bind fun (d, t) ↦
      (closing? t).map fun rest ↦ (d, rest) := by
    simp only [registration, addressedRegistration, closing?, Option.bind_eq_bind,
      Option.pure_def, Option.map_eq_bind, Option.bind_assoc, Function.comp_def, Option.bind_some]
  rw [hbind]
  cases addressedRegistration before t <;> rfl

theorem closedBy_decorator :
    ClosedBy decorator addressedDecorator (dropSpaced? ")") bareDecorator := by
  intro before t
  have hdecorator : decorator before t = (decoratorOpening t).bind fun (verb, t) ↦
      (dropSpaced? ")" (argument t.trimLeft).2).map fun rest ↦
        (⟨verb, (argument t.trimLeft).1⟩, rest) := by
    simp only [decorator, decoratorOpening, Option.bind_eq_bind, Option.pure_def,
      Option.map_eq_bind, Option.bind_assoc, Function.comp_def, Option.bind_some]
  rw [hdecorator, addressedDecorator, bareDecorator]
  cases decoratorOpening t with
  | none => rfl
  | some opened =>
    obtain ⟨verb, t⟩ := opened
    simp only [Option.bind_eq_bind, Option.bind_some, argument]
    cases quoted? t.trimLeft with
    | none =>
      dsimp only [Option.getD_none, Option.bind_none, Option.elim_none]
      cases dropSpaced? ")" t.trimLeft <;> rfl
    | some found => rfl

/-- The last `n` characters of a text start within the path of the front, or with the quotation mark
that closes it. -/
def CutBy (front : Pattern Declaration) (before : Option CodePoint) (t : Text) (n : Nat) : Prop :=
  ∃ found, front before t = some found ∧ Cut Declaration.path n found

theorem spreads_of_closedBy {pattern front : Pattern Declaration} {close : Text → Option Text}
    {bare : Text → Option (Declaration × Text)} (hclosed : ClosedBy pattern front close bare)
    (hfront : ∀ before tail m n,
      Keeps (Spread tail m n) (Apart Declaration.path tail m n) (front before))
    (hclose : ∀ tail m n, Keeps (Spread tail m n) (Spread tail m n) close)
    (hbare : ∀ tail m n, Keeps (Spread tail m n) (Beside (Spread tail m n)) bare)
    (hfeed : ∀ before t, pattern before (CodePoint.ofChar '\n' :: t) = none)
    (hstart : ∀ t, pattern (some '\n') t = pattern none t) : pattern.Spreads (CutBy front) where
  keeps {tail m n before t t' d rest} ht h := by
    rw [hclosed] at h
    rw [hclosed]
    cases hfound : front before t with
    | none =>
      rw [hfound] at h
      rw [ht.declines (hfront before tail n m) hfound]
      obtain ⟨⟨d', rest'⟩, hbare', heq, hrest⟩ := hbare tail m n ht h
      exact ⟨d', rest', hbare', hrest, .inl heq⟩
    | some found =>
      obtain ⟨d₀, opened⟩ := found
      rw [hfound] at h
      obtain ⟨closed, hclosed, heq⟩ := Option.map_eq_some_iff.mp h
      cases heq
      obtain ⟨⟨d', opened'⟩, hfound', hopened, hd⟩ := hfront before tail m n ht hfound
      obtain ⟨closed', hclosed', hrest⟩ := hclose tail m n hopened hclosed
      rw [hfound']
      refine ⟨d', closed', ?_, hrest, hd.imp_right fun hcut ↦ ⟨_, hfound, hcut⟩⟩
      exact Option.map_eq_some_iff.mpr ⟨closed', hclosed', rfl⟩
  feed := hfeed
  start := hstart

section Fronts

variable (before : Option CodePoint) (tail : Text) (m n : Nat)

theorem keeps_fluentCall :
    Keeps (Spread tail m n) (Apart Declaration.path tail m n) (fluentCall before) := by
  have hR := respacing_spread tail m n
  have hcalled : Keeps (Spread tail m n) (Apart Declaration.path tail m n) calledVerb? :=
    (keeps_verb hR).bind (.beside fun verb ↦ (keeps_dropSpaced? hR (by decide)).bind
      ((hR.keeps_trimLeft keeps_quotedNonempty?).bind (keeps_declaration verb)))
  intro t t' found ht h
  rw [fluentCall_eq_calledVerb?] at h ⊢
  split at h
  · cases h
  · next hbefore =>
    rw [if_neg hbefore]
    exact hcalled ht h

theorem keeps_addressedRegistration :
    Keeps (Spread tail m n) (Apart Declaration.path tail m n) (addressedRegistration before) :=
  (keeps_registrationOpening (respacing_spread tail m n) before).bind (.beside fun _ ↦
    (keeps_first?_methodField tail m n).bind (.beside fun verb ↦
      (keeps_first?_urlField tail m n).bind (keeps_declaration verb)))

theorem keeps_decoratorOpening :
    Keeps (Spread tail m n) (Beside (Spread tail m n)) decoratorOpening := by
  have hR := respacing_spread tail m n
  exact (hR.keeps_dropLiteral? (by decide)).bind ((keeps_decoratorName hR).bind
    (.beside fun verb ↦ (keeps_dropSpaced? hR (by decide)).bind (keeps_found verb)))

theorem keeps_addressedDecorator :
    Keeps (Spread tail m n) (Apart Declaration.path tail m n) (addressedDecorator before) :=
  (keeps_decoratorOpening tail m n).bind (.beside fun verb ↦
    ((respacing_spread tail m n).keeps_trimLeft keeps_quoted?).bind (keeps_declaration verb))

theorem keeps_bareDecorator :
    Keeps (Spread tail m n) (Beside (Spread tail m n)) bareDecorator := by
  have hR := respacing_spread tail m n
  exact (keeps_decoratorOpening tail m n).bind (.beside fun verb ↦
    (hR.keeps_trimLeft (keeps_dropSpaced? hR (by decide))).bind
      (keeps_found (⟨verb, []⟩ : Declaration)))

end Fronts

theorem spreads_fluentCall : fluentCall.Spreads (CutBy fluentCall) := by
  refine spreads_of_closedBy closedBy_fluentCall keeps_fluentCall (fun _ _ _ ↦ ?_) (fun _ _ _ ↦ ?_)
    (fun before t ↦ ?_) fun t ↦ rfl
  · rintro t t' _ ht ⟨⟩
    exact ⟨t', rfl, ht⟩
  · rintro t t' _ ht ⟨⟩
  · rw [fluentCall_eq_calledVerb?]
    split <;> rfl

theorem spreads_registration : registration.Spreads (CutBy addressedRegistration) := by
  refine spreads_of_closedBy closedBy_registration keeps_addressedRegistration keeps_closing?
    (fun _ _ _ ↦ ?_) (fun before t ↦ ?_) fun t ↦ rfl
  · rintro t t' _ ht ⟨⟩
  · rw [registration_eq_finish]
    split <;> rfl

theorem spreads_decorator : decorator.Spreads (CutBy addressedDecorator) := by
  refine spreads_of_closedBy closedBy_decorator keeps_addressedDecorator
    (fun tail m n ↦ keeps_dropSpaced? (respacing_spread tail m n) (by decide)) keeps_bareDecorator
    (fun before t ↦ rfl) fun t ↦ rfl

end Declaration

end RouteCatalog
