import ApiBindings.Proofs.Schema.Resolve
import ApiBindings.Schema.Content
import ApiBindings.Text.Space
import Mathlib.Data.List.Basic
import Mathlib.Data.List.Infix
import Mathlib.Data.List.TakeWhile
import Mathlib.Tactic.SplitIfs

/-!
The media type that a body is read by. Main statement: it is the preferred one of those that the
content has, unless a key that only begins like a preferred media type comes before it.
-/

namespace ApiBindings

section First

variable {α τ : Type}

/-- What one condition finds first is found by another if it meets that one and nothing before it
does. -/
theorem find?_eq_some_iff_of_find? {p q : α → Bool} {xs : List α} {x : α}
    (h : xs.find? p = some x) :
    xs.find? q = some x ↔ q x = true ∧ ∀ y ∈ xs.takeWhile (fun y => !p y), q y = false := by
  induction xs with
  | nil => cases h
  | cons y ys ih =>
    have hpx : p x = true := List.find?_some h
    by_cases hp : p y = true
    · rw [List.find?_cons_of_pos hp] at h
      cases h
      rw [List.takeWhile_cons_of_neg (by simp [hp])]
      refine ⟨fun hq => ⟨List.find?_some hq, List.forall_mem_nil _⟩, fun hq => ?_⟩
      exact List.find?_cons_of_pos hq.1
    · rw [List.find?_cons_of_neg hp] at h
      rw [List.takeWhile_cons_of_pos (by simp [hp]), List.forall_mem_cons]
      by_cases hq : q y = true
      · rw [List.find?_cons_of_pos hq, hq]
        refine iff_of_false (fun he => hp ?_) (by simp)
        rwa [Option.some.inj he]
      · rw [List.find?_cons_of_neg hq, ih h, Bool.eq_false_iff]
        exact and_congr_right fun _ => (and_iff_right hq).symm

theorem findSome?_eq_some_iff_of_findSome? [BEq τ] [LawfulBEq τ] (f g : τ → Option α) (type : α → τ)
    {ts : List τ} {x : α} (hf : ∀ t, f t = some x → type x = t)
    (hg : ∀ t ∈ ts, g t = some x → type x = t) (h : ts.findSome? f = some x) :
    ts.findSome? g = some x ↔
      g (type x) = some x ∧ ∀ t ∈ ts.takeWhile (· != type x), g t = none := by
  induction ts with
  | nil => cases h
  | cons t ts ih =>
    obtain ⟨hgt, hgts⟩ := List.forall_mem_cons.mp hg
    rw [List.findSome?_cons] at h ⊢
    cases hft : f t with
    | some y =>
      rw [hft] at h
      cases h
      rw [hf t hft, List.takeWhile_cons_of_neg (by simp)]
      cases hgx : g t with
      | some z => simp
      | none =>
        refine iff_of_false (fun he => ?_) (by simp)
        obtain ⟨u, hu, hgu⟩ := List.exists_of_findSome?_eq_some he
        rw [← hgts u hu hgu, hf t hft, hgx] at hgu
        cases hgu
    | none =>
      rw [hft] at h
      -- A later search has found `x`, so this one is not of its type and has to find nothing.
      obtain ⟨u, -, hfu⟩ := List.exists_of_findSome?_eq_some h
      have hne : t ≠ type x := by
        rintro rfl
        rw [hf u hfu, hfu] at hft
        cases hft
      rw [List.takeWhile_cons_of_pos (by simpa using hne), List.forall_mem_cons]
      cases hgx : g t with
      | some z =>
        refine iff_of_false (fun he => ?_) (by simp)
        cases he
        exact hne (hgt hgx).symm
      | none =>
        dsimp only
        rw [ih hgts h]
        exact and_congr_right fun _ => (and_iff_right rfl).symm

theorem findSome?_congr {f g : τ → Option α} {ts : List τ} (h : ∀ t ∈ ts, f t = g t) :
    ts.findSome? f = ts.findSome? g := by
  induction ts with
  | nil => rfl
  | cons t ts ih =>
    obtain ⟨ht, hts⟩ := List.forall_mem_cons.mp h
    rw [List.findSome?_cons, List.findSome?_cons, ht, ih hts]

end First

namespace Text

theorem beginsWith_iff {p s : String} : beginsWith p s = true ↔ p.toList <+: s.toList := by
  rw [beginsWith, Option.isSome_iff_exists, List.prefix_iff_exists_append_eq]
  exact exists_congr fun r => after?_eq_some_iff.trans eq_comm

theorem prefix_trim {p s : List Char} (hstart : p.head?.all (fun c => !isSpace c) = true)
    (hend : p.getLast?.all (fun c => !isSpace c) = true) (h : p <+: s) : p <+: trim s := by
  obtain ⟨r, rfl⟩ := h
  have hkept : p ≠ [] → trimStart (p ++ r) = p ++ r := by
    intro hne
    cases p with
    | nil => exact absurd rfl hne
    | cons c cs =>
      rw [trimStart, List.cons_append, List.dropWhile_cons_of_neg]
      simpa using hstart
  -- The last character of `p` is kept, and with it all that stands in front of it.
  rcases List.eq_nil_or_concat p with rfl | ⟨front, d, rfl⟩
  · exact List.nil_prefix
  · have hd : isSpace d = false := by simpa using hend
    have hlast : (front.concat d).reverse.dropWhile isSpace = (front.concat d).reverse := by
      rw [List.concat_eq_append, List.reverse_concat, List.dropWhile_cons_of_neg (by simp [hd])]
    rw [trim, hkept (by simp), trimEnd, List.reverse_append, List.dropWhile_append, hlast]
    split_ifs
    · rw [List.reverse_reverse]
    · rw [List.reverse_append, List.reverse_reverse]
      exact List.prefix_append _ _

end Text

namespace Schema

/-- The media type of a key: what stands before its parameters, without white space around it. -/
def mediaType (key : String) : String :=
  String.ofList (Text.trim (key.toList.takeWhile (· != ';')))

def firstMedia? (reads : String → String → Bool) (content : List (String × Value)) :
    Option (String × Value) :=
  mediaPriority.findSome? fun type => content.find? fun e => reads type e.1

/-- The entry that a body should be read by. -/
def preferredMedia? (content : List (String × Value)) : Option (String × Value) :=
  firstMedia? (fun type key => mediaType key == type) content

/-- The entry that a body is read by, which goes by the beginning of a key. -/
def openingMedia? (content : List (String × Value)) : Option (String × Value) :=
  firstMedia? Text.beginsWith content

def Misread (key type : String) : Prop := Text.beginsWith type key = true ∧ mediaType key ≠ type

/-- No key that is misread comes before the one of the given name, neither as a media type that is
preferred to its own nor as its own in front of it. -/
structure Undisturbed (content : List (String × Value)) (name : String) : Prop where
  plain : Text.beginsWith (mediaType name) name = true
  higher : ∀ type ∈ mediaPriority.takeWhile (· != mediaType name), ∀ e ∈ content,
    ¬ Misread e.1 type
  earlier : ∀ e ∈ content.takeWhile (fun e => mediaType e.1 != mediaType name),
    ¬ Misread e.1 (mediaType name)

theorem prefix_mediaType {type key : String} (htype : type ∈ mediaPriority)
    (h : Text.beginsWith type key = true) : type.toList <+: (mediaType key).toList := by
  have htypes : ∀ t ∈ mediaPriority, t.toList.all (fun c => c != ';') = true ∧
      t.toList.head?.all (fun c => !Text.isSpace c) = true ∧
      t.toList.getLast?.all (fun c => !Text.isSpace c) = true := by
    decide
  obtain ⟨hplain, hstart, hend⟩ := htypes type htype
  obtain ⟨r, hr⟩ := Text.beginsWith_iff.mp h
  rw [mediaType, String.toList_ofList]
  refine Text.prefix_trim hstart hend ?_
  rw [← hr, List.takeWhile_append_of_pos (List.all_eq_true.mp hplain)]
  exact List.prefix_append _ _

theorem mediaType_eq {type key : String} (htype : type ∈ mediaPriority)
    (hkey : mediaType key ∈ mediaPriority) (h : Text.beginsWith type key = true) :
    mediaType key = type := by
  have hapart : ∀ t ∈ mediaPriority, ∀ u ∈ mediaPriority, t.toList <+: u.toList → u = t := by
    decide
  exact hapart type htype _ hkey (prefix_mediaType htype h)

def ofMediaType? (content : List (String × Value)) (type : String) : Option (String × Value) :=
  content.find? fun e => mediaType e.1 == type

theorem mediaType_of_found {content : List (String × Value)} {type : String}
    {e : String × Value} (h : ofMediaType? content type = some e) : mediaType e.1 = type := by
  have hfound := List.find?_some h
  exact eq_of_beq hfound

theorem mediaType_of_preferredMedia? {content : List (String × Value)} {e : String × Value}
    (h : preferredMedia? content = some e) :
    mediaType e.1 ∈ mediaPriority ∧
      ofMediaType? content (mediaType e.1) = some e ∧
      ∀ type ∈ mediaPriority.takeWhile (· != mediaType e.1), ∀ f ∈ content,
        mediaType f.1 ≠ type := by
  obtain ⟨hfound, hhigher⟩ := (findSome?_eq_some_iff_of_findSome? (ofMediaType? content)
    (ofMediaType? content) (fun e => mediaType e.1) (fun _ => mediaType_of_found)
    (fun _ _ => mediaType_of_found) h).mp h
  obtain ⟨t, ht, hft⟩ := List.exists_of_findSome?_eq_some h
  refine ⟨mediaType_of_found hft ▸ ht, hfound, fun type hmem f hf heq => ?_⟩
  have := List.find?_eq_none.mp (hhigher type hmem) f hf
  simp [heq] at this

theorem openingMedia?_eq_iff {content : List (String × Value)} {e : String × Value}
    (h : preferredMedia? content = some e) :
    openingMedia? content = some e ↔ Undisturbed content e.1 := by
  obtain ⟨hmem, hfound, hhigher⟩ := mediaType_of_preferredMedia? h
  -- The entry is found by its beginning under no other type than its own.
  have hbegins : ∀ t ∈ mediaPriority,
      content.find? (fun f => Text.beginsWith t f.1) = some e → mediaType e.1 = t := by
    intro t ht hfind
    have hb := List.find?_some hfind
    exact mediaType_eq ht hmem hb
  rw [openingMedia?, firstMedia?, findSome?_eq_some_iff_of_findSome? (ofMediaType? content)
    (fun type => content.find? fun f => Text.beginsWith type f.1) (fun f => mediaType f.1)
    (fun _ => mediaType_of_found) hbegins h, find?_eq_some_iff_of_find? hfound]
  constructor
  · rintro ⟨⟨hplain, hearlier⟩, hnone⟩
    refine ⟨hplain, fun type ht f hf hmis => ?_, fun f hf hmis => ?_⟩
    · exact List.find?_eq_none.mp (hnone type ht) f hf hmis.1
    · exact absurd hmis.1 (by simp [hearlier f hf])
  · rintro ⟨hplain, hno, hearlier⟩
    refine ⟨⟨hplain, fun f hf => ?_⟩, fun type ht => List.find?_eq_none.mpr fun f hf hb => ?_⟩
    · have hne : mediaType f.1 ≠ mediaType e.1 := by
        simpa using List.mem_takeWhile_imp hf
      exact Bool.eq_false_iff.mpr fun hb => hearlier f hf ⟨hb, hne⟩
    · exact hno type ht f hf ⟨hb, hhigher type ht f hf⟩

theorem preferredMedia?_filter (content : List (String × Value)) :
    preferredMedia? (content.filter fun e => mediaType e.1 ∈ mediaPriority) =
      preferredMedia? content := by
  unfold preferredMedia? firstMedia?
  refine findSome?_congr fun type htype => ?_
  rw [List.find?_filter]
  refine congrArg (content.find? ·) (funext fun e => ?_)
  by_cases he : mediaType e.1 = type
  · simp [he, htype]
  · simp [he]

def contentEntries (content : List (String × Value)) : Entries :=
  content.map fun e => (.str e.1, e.2)

theorem findMedia?_eq (start : String) (content : List (String × Value)) :
    findMedia? start (contentEntries content) =
      .ok (content.find? fun e => Text.beginsWith start e.1) := by
  induction content with
  | nil => rfl
  | cons e content ih =>
    rw [contentEntries, List.map_cons, findMedia?]
    change (if Text.beginsWith start e.1 then _ else _) = _
    split_ifs with hb
    · rw [List.find?_cons, hb]
      rfl
    · rw [List.find?_cons, Bool.eq_false_iff.mpr hb]
      exact ih

theorem selectMedia?_eq (content : List (String × Value)) (starts : List String) :
    selectMedia? (contentEntries content) starts =
      .ok (starts.findSome? fun start => content.find? fun e => Text.beginsWith start e.1) := by
  induction starts with
  | nil => rfl
  | cons start starts ih =>
    rw [selectMedia?, findMedia?_eq, List.findSome?_cons]
    cases hfind : content.find? fun e => Text.beginsWith start e.1 with
    | some e => rfl
    | none => exact ih

def entryType (location : String) : Option (String × Value) → Except Fault TypeExpr
  | none => .ok .void
  | some (name, media) => do
    typeOf (Entries.get (← media.entriesOrNone) "schema")
      (location ++ "/content/" ++ name ++ "/schema")

theorem contentType_eq {label contentLabel : Option Nat} {es : Entries}
    {content : List (String × Value)} (href : reference? es = none)
    (hcontent : es.get "content" = .map contentLabel (contentEntries content))
    (location : String) :
    contentType (.map label es) location = entryType location (openingMedia? content) := by
  rw [contentType, href, hcontent]
  dsimp only
  split_ifs with hfilled
  · change (selectMedia? (contentEntries content) mediaPriority >>= _) = _
    rw [selectMedia?_eq, openingMedia?, firstMedia?]
    cases mediaPriority.findSome? fun start => content.find? fun e => Text.beginsWith start e.1 with
    | some e => rfl
    | none => rfl
  · cases content with
    | nil => rfl
    | cons e content => exact absurd rfl hfilled

/-- A body is read by the first of its keys that begins like a preferred media type. This is the
first key of the preferred media type just if no misread key disturbs it; the keys of other media
types, wherever they stand, have no part in which key that is. -/
theorem contentType_prefers {label contentLabel : Option Nat} {es : Entries}
    {content : List (String × Value)} {name : String} {media : Value}
    (href : reference? es = none)
    (hcontent : es.get "content" = .map contentLabel (contentEntries content))
    (hpreferred : preferredMedia? content = some (name, media)) (location : String) :
    contentType (.map label es) location = entryType location (openingMedia? content) ∧
      (openingMedia? content = some (name, media) ↔ Undisturbed content name) ∧
      ∀ other : List (String × Value),
        (other.filter fun e => mediaType e.1 ∈ mediaPriority) =
          (content.filter fun e => mediaType e.1 ∈ mediaPriority) →
        preferredMedia? other = some (name, media) := by
  refine ⟨contentType_eq href hcontent location, openingMedia?_eq_iff hpreferred, ?_⟩
  intro other hother
  rw [← preferredMedia?_filter, hother, preferredMedia?_filter, hpreferred]

def bodyOf (content : List (String × Value)) : Entries :=
  [(.str "content", .ofEntries (contentEntries content))]

def mediaOf (kind : String) : Value :=
  .ofEntries [(.str "schema", .ofEntries [(.str "type", .str kind)])]

/-- A parameter behind the media type, and an entry of another media type in front of it. -/
def withCharset : List (String × Value) :=
  [("application/xml", mediaOf "boolean"), ("application/json; charset=utf-8", mediaOf "string"),
    ("application/octet-stream", mediaOf "binary")]

theorem contentType_prefers_withCharset :
    reference? (bodyOf withCharset) = none ∧
      (bodyOf withCharset).get "content" = .map none (contentEntries withCharset) ∧
      preferredMedia? withCharset = some ("application/json; charset=utf-8", mediaOf "string") ∧
      contentType (.map none (bodyOf withCharset)) "#" = entryType "#" (openingMedia? withCharset) ∧
      (openingMedia? withCharset = some ("application/json; charset=utf-8", mediaOf "string") ↔
        Undisturbed withCharset "application/json; charset=utf-8") ∧
      ∀ other : List (String × Value),
        (other.filter fun e => mediaType e.1 ∈ mediaPriority) =
          (withCharset.filter fun e => mediaType e.1 ∈ mediaPriority) →
        preferredMedia? other = some ("application/json; charset=utf-8", mediaOf "string") := by
  have href : reference? (bodyOf withCharset) = none := rfl
  have hcontent : (bodyOf withCharset).get "content" = .map none (contentEntries withCharset) := rfl
  have hpreferred : preferredMedia? withCharset =
      some ("application/json; charset=utf-8", mediaOf "string") := rfl
  exact ⟨href, hcontent, hpreferred, contentType_prefers href hcontent hpreferred "#"⟩

/-- A media type that begins like a preferred one, in front of that one. -/
def patchFirst : List (String × Value) :=
  [("application/json-patch+json", mediaOf "number"),
    ("application/json; charset=utf-8", mediaOf "string")]

theorem contentType_misreads_patchFirst :
    preferredMedia? patchFirst = some ("application/json; charset=utf-8", mediaOf "string") ∧
      entryType "#" (preferredMedia? patchFirst) = .ok .string ∧
      contentType (.map none (bodyOf patchFirst)) "#" = .ok .number := by
  have hpreferred : preferredMedia? patchFirst =
      some ("application/json; charset=utf-8", mediaOf "string") := rfl
  have hopening : openingMedia? patchFirst =
      some ("application/json-patch+json", mediaOf "number") := rfl
  have hread (name kind : String) (location : String) :
      entryType location (some (name, mediaOf kind)) =
        mappingType [(.str "type", .str kind)] (location ++ "/content/" ++ name ++ "/schema") :=
    typeOf_mapping rfl _
  refine ⟨hpreferred, ?_, ?_⟩
  · rw [hpreferred, hread, mappingType]
    rfl
  · have hopens : contentType (.map none (bodyOf patchFirst)) "#" =
        entryType "#" (openingMedia? patchFirst) := contentType_eq rfl rfl "#"
    rw [hopens, hopening, hread, mappingType]
    rfl

end Schema

end ApiBindings
