import RouteCatalog.DocComment.Block
import RouteCatalog.DocComment.Tag
import RouteCatalog.Proofs.Fallible
import RouteCatalog.Proofs.Json.Reader
import RouteCatalog.Proofs.Text.Pattern

/-!
# What a comment says can be written

A comment of a text without surrogates holds none, and so do its lines, names and bodies. Its JSON
is what the reader gives, or a text of the comment in place of it. So the whole documentation can be
written as JSON and read again (`storable_documentation`).
-/

namespace RouteCatalog

/-- What the documentation says is read back as it was written. -/
structure Documentation.Storable (d : Documentation) : Prop where
  description : ∀ t, d.description = some t → t.Unsplit
  parameters : ∀ p ∈ d.parameters, p.name.Unsplit
  requestBody : d.requestBody.Storable
  response : ∀ r, d.response = some r → r.status.natAbs < 1000 ∧ r.body.Storable

namespace DocComment

variable {t rest content text : Text}

/-! ## Blocks -/

theorem block_subset {before : Option CodePoint} (h : block before t = some (text, rest)) :
    text ⊆ t := by
  simp only [block, Option.bind_eq_bind, Option.bind_eq_some_iff, Option.pure_def,
    Option.some.injEq, Prod.exists, Prod.mk.injEq] at h
  obtain ⟨opened, hopened, body, after, hbody, rfl, rfl⟩ := h
  rw [Text.dropLiteral?_eq_some_iff.mp hopened, Text.eq_append_of_breakAt? hbody]
  intro c hc
  simpa [List.mem_append, or_assoc] using List.mem_append_left after hc

theorem surrogateFree_lastBefore (hcontent : content.SurrogateFree) {offset : Int}
    (h : lastBefore content offset = some text) : text.SurrogateFree := by
  obtain ⟨o, ho, rfl⟩ := List.mem_map.mp (List.mem_of_getLast? h)
  obtain ⟨-, before, after, hfound⟩ := Pattern.exists_of_mem_occurrences ho
  -- A block is part of the text before the offset, which is part of the content.
  have htake : content.upTo offset ⊆ content := (List.take_sublist _ _).subset
  exact hcontent.of_subset (List.Subset.trans (block_subset hfound)
    (List.Subset.trans (List.drop_sublist _ _).subset htake))

/-! ## Lines -/

theorem undecorated_subset (line : Text) : undecorated line ⊆ line := by
  have htrimmed : line.trimLeft ⊆ line := (Text.trimLeft_isSuffix line).subset
  rw [undecorated]
  split
  · exact List.Subset.refl line
  · next c rest hline =>
    rw [hline] at htrimmed
    have hrest := List.Subset.trans (List.subset_cons_self c rest) htrimmed
    split
    · split
      · exact List.nil_subset line
      · next b more =>
        split
        · exact List.Subset.trans (List.subset_cons_self b more) hrest
        · exact hrest
    · exact List.Subset.refl line

theorem withoutDelimiters_subset (t : Text) : withoutDelimiters t ⊆ t := by
  -- The opening delimiter is dropped where there is one.
  have hopened : (Text.dropLiteral? "/**" t.trim).getD t.trim ⊆ t.trim := by
    cases hdrop : Text.dropLiteral? "/**" t.trim with
    | none => exact List.Subset.refl _
    | some rest => exact (Text.dropLiteral?_isSuffix hdrop).subset
  refine List.Subset.trans ?_ (List.Subset.trans hopened (Text.trim_subset t))
  rw [withoutDelimiters]
  split
  · exact (List.take_sublist _ _).subset
  · exact List.Subset.refl _

theorem surrogateFree_undecoratedBody (h : t.SurrogateFree) :
    (undecoratedBody t).SurrogateFree := by
  have hpieces : ∀ piece ∈ t.lines.map fun line ↦ (undecorated line).trimRight,
      piece.SurrogateFree := by
    intro piece hpiece
    obtain ⟨line, hline, rfl⟩ := List.mem_map.mp hpiece
    exact h.of_subset (List.Subset.trans (Text.trimRight_subset _)
      (List.Subset.trans (undecorated_subset line) (Text.lines_subset hline)))
  exact (Text.SurrogateFree.join (by decide) hpieces).of_subset (Text.trim_subset _)

theorem surrogateFree_description (h : t.SurrogateFree) (htext : description t = some text) :
    text.SurrogateFree := by
  have hpieces : ∀ piece ∈ descriptionLines t, piece.SurrogateFree := by
    intro piece hpiece
    obtain ⟨line, hline, rfl⟩ := List.mem_map.mp (List.mem_of_mem_filter hpiece)
    exact h.of_subset (List.Subset.trans (Text.trim_subset _)
      (List.Subset.trans (undecorated_subset line)
        (List.Subset.trans (Text.lines_subset hline) (withoutDelimiters_subset t))))
  have hjoined : (Text.join " " (descriptionLines t)).trim.SurrogateFree :=
    (Text.SurrogateFree.join (by decide) hpieces).of_subset (Text.trim_subset _)
  rw [description] at htext
  split at htext
  · cases htext
  · cases htext
    exact hjoined

/-! ## Annotations -/

theorem body_isPrefix (t : Text) : body t <+: t := by
  induction t with
  | nil => exact List.prefix_rfl
  | cons c t ih =>
    rw [body]
    split
    · exact List.nil_prefix
    · exact (List.prefix_cons_inj c).mpr ih

theorem dropBlanks?_isSuffix (h : Text.dropBlanks? t = some rest) : rest <:+ t := by
  cases t with
  | nil => cases h
  | cons c t =>
    rw [Text.dropBlanks?] at h
    split at h
    · cases h
      exact (Text.trimLeft_isSuffix t).trans (List.suffix_cons c t)
    · cases h

theorem parameterTag_subset {before : Option CodePoint} {type name : Text}
    (h : parameterTag before t = some ((type, name), rest)) : name ⊆ t := by
  simp only [parameterTag, Option.bind_eq_bind, Option.bind_eq_some_iff] at h
  obtain ⟨named, hnamed, opened, hopened, typed, htyped, h⟩ := h
  split at h
  · cases h
  · simp only [Option.bind_eq_some_iff, Option.pure_def, Option.some.injEq, Prod.mk.injEq] at h
    obtain ⟨closed, hclosed, started, hstarted, ⟨-, rfl⟩, -⟩ := h
    have hsuffix : started <:+ typed := (dropBlanks?_isSuffix hstarted).trans
      ((Text.dropLiteral?_isSuffix hclosed).trans (List.dropWhile_suffix _))
    exact List.Subset.trans (List.takeWhile_sublist _).subset
      (hsuffix.trans ((Text.dropLiteral?_isSuffix htyped).trans
        ((dropBlanks?_isSuffix hopened).trans (Text.dropLiteral?_isSuffix hnamed)))).subset

theorem surrogateFree_parameters (h : t.SurrogateFree) :
    ∀ p ∈ parameters t, p.name.SurrogateFree := by
  intro p hp
  obtain ⟨⟨start, length, type, name⟩, ho, hparameter⟩ := List.mem_filterMap.mp hp
  obtain ⟨-, before, after, hfound⟩ := Pattern.exists_of_mem_occurrences ho
  rw [parameter?] at hparameter
  split at hparameter
  · cases hparameter
  · cases hparameter
    exact h.of_subset (List.Subset.trans (parameterTag_subset hfound)
      (List.drop_sublist _ _).subset)

theorem requestBodyTag_subset {before : Option CodePoint}
    (h : requestBodyTag before t = some (text, rest)) : text ⊆ t := by
  simp only [requestBodyTag, Option.bind_eq_bind, Option.bind_eq_some_iff, Option.pure_def,
    Option.some.injEq, Prod.mk.injEq] at h
  obtain ⟨named, hnamed, opened, hopened, rfl, -⟩ := h
  exact List.Subset.trans (body_isPrefix opened).subset
    ((dropBlanks?_isSuffix hopened).trans (Text.dropLiteral?_isSuffix hnamed)).subset

theorem status?_eq_some {status : Nat} (h : status? t = some (status, rest)) :
    status < 1000 ∧ rest <:+ t := by
  unfold status? at h
  split at h
  · next a b c t =>
    simp only [Option.bind_eq_bind, Option.bind_eq_some_iff, Option.pure_def,
      Option.some.injEq, Prod.mk.injEq] at h
    obtain ⟨x, hx, y, hy, z, hz, rfl, rfl⟩ := h
    -- Three decimal digits, of whatever script.
    have := CodePoint.digit?_lt_ten hx
    have := CodePoint.digit?_lt_ten hy
    have := CodePoint.digit?_lt_ten hz
    refine ⟨by omega, (List.suffix_cons c _).trans ((List.suffix_cons b _).trans
      (List.suffix_cons a _))⟩
  · cases h

theorem responseTag_subset {before : Option CodePoint} {status : Nat}
    (h : responseTag before t = some ((status, text), rest)) : status < 1000 ∧ text ⊆ t := by
  simp only [responseTag, Option.bind_eq_bind, Option.bind_eq_some_iff, Option.pure_def,
    Option.some.injEq, Prod.exists, Prod.mk.injEq] at h
  obtain ⟨named, hnamed, opened, hopened, status, after, hstatus, started, hstarted,
    ⟨rfl, rfl⟩, -⟩ := h
  obtain ⟨hlt, hafter⟩ := status?_eq_some hstatus
  refine ⟨hlt, List.Subset.trans (body_isPrefix started).subset ?_⟩
  exact ((dropBlanks?_isSuffix hstarted).trans (hafter.trans
    ((dropBlanks?_isSuffix hopened).trans (Text.dropLiteral?_isSuffix hnamed)))).subset

/-! ## Bodies -/

theorem storable_bodyValue {plain : Text → Json} {v : Json} (ht : t.SurrogateFree)
    (hplain : ∀ text : Text, text.SurrogateFree → (plain text).Storable)
    (h : bodyValue plain t = .ok v) : v.Storable := by
  have htext := surrogateFree_undecoratedBody ht
  rw [bodyValue] at h
  split at h
  · next hread =>
    cases h
    exact (Json.fits_of_read htext hread).storable
  · cases h
  · cases h
    exact hplain _ htext

theorem storable_requestBody {v : Json} (ht : t.SurrogateFree) (h : requestBody t = .ok v) :
    v.Storable := by
  rw [requestBody] at h
  split at h
  · cases h
    exact ⟨trivial, trivial, trivial⟩
  · next text after hfirst =>
    obtain ⟨tail, htail, before, hfound⟩ := Pattern.exists_of_first? hfirst
    refine storable_bodyValue (ht.of_subset ?_) (fun text htext ↦ ?_) h
    · exact List.Subset.trans (requestBodyTag_subset hfound) htail.subset
    · refine Json.storable_obj (List.nodup_singleton _) fun m hm ↦ ?_
      rw [List.mem_singleton.mp hm]
      have hkey : Text.Unsplit "schema" := by decide
      exact ⟨hkey, Json.storable_str htext.unsplit⟩

theorem storable_response {r : Response} (ht : t.SurrogateFree)
    (h : response t = .ok (some r)) : r.status.natAbs < 1000 ∧ r.body.Storable := by
  rw [response] at h
  split at h
  · cases h
  · next status text after hfirst =>
    obtain ⟨tail, htail, before, hfound⟩ := Pattern.exists_of_first? hfirst
    obtain ⟨hlt, hsubset⟩ := responseTag_subset hfound
    obtain ⟨v, hvalue, h⟩ := exists_of_map_eq_ok h
    cases h
    refine ⟨hlt, storable_bodyValue (ht.of_subset ?_) (fun text htext ↦ ?_) hvalue⟩
    · exact List.Subset.trans hsubset htail.subset
    · exact Json.storable_str htext.unsplit

/-- **What a comment without surrogates says can be written.** -/
theorem storable_documentation {d : Documentation} (ht : t.SurrogateFree)
    (h : documentation t = .ok d) : d.Storable := by
  rw [documentation] at h
  split at h
  · cases h
    exact ⟨by simp, by simp, ⟨trivial, trivial, trivial⟩, by simp⟩
  · obtain ⟨body, hbody, h⟩ := exists_of_bind_eq_ok h
    obtain ⟨found, hresponse, h⟩ := exists_of_bind_eq_ok h
    cases h
    refine ⟨fun text htext ↦ (surrogateFree_description ht htext).unsplit,
      fun p hp ↦ (surrogateFree_parameters ht p hp).unsplit, storable_requestBody ht hbody,
      fun r hr ↦ storable_response ht ?_⟩
    rw [hresponse]
    exact congrArg Except.ok hr

end DocComment

end RouteCatalog
