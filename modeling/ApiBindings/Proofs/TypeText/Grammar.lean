import ApiBindings.Proofs.TypeText.Reader
import ApiBindings.TypeExpr.Render
import Mathlib.Data.List.Forall2

/-!
Texts that read as a given type wherever they stand. Main statements: such texts put together by
the rules of the grammar are such texts again.
-/

namespace ApiBindings.TypeText

def Connective.separator : Connective → String
  | .union => " | "
  | .intersection => " & "

/-- The marks that would bind to the end of a part before the connective does. -/
def Connective.tighter : Connective → List Char
  | .intersection => ['<', '[']
  | .union => ['<', '[', '&']

def Apart (ms : List Char) (rest : List Token) : Prop := ∀ m ∈ ms, rest.head? ≠ some (.mark m)

theorem apart_mark {ms : List Char} {m : Char} {rest : List Token} (h : m ∉ ms) :
    Apart ms (.mark m :: rest) := by
  intro n hn he
  cases he
  exact h hn

inductive Continues (c : Connective) : List Token → List TypeTree → List Token → Prop where
  | more {rest us after} (h : Reads (readParts c) rest us after) :
      Continues c (.mark c.mark :: rest) us after
  | done {rest} (h : rest.head? ≠ some (.mark c.mark)) : Continues c rest [] rest

def IsAtom (text : String) (u : TypeTree) : Prop :=
  ∃ ts, Scans text ts ∧ ∀ rest, Apart ['<'] rest →
    Reads (readPart .intersection) (ts ++ rest) (suffixed u rest).1 (suffixed u rest).2

def IsPart (c : Connective) (text : String) (u : TypeTree) : Prop :=
  ∃ ts, Scans text ts ∧ ∀ rest, Apart c.tighter rest → Reads (readPart c) (ts ++ rest) u rest

def AreParts (c : Connective) (text : String) (us : List TypeTree) : Prop :=
  ∃ ts, Scans text ts ∧ ∀ rest vs after, Apart c.tighter rest → Continues c rest vs after →
    Reads (readParts c) (ts ++ rest) (us ++ vs) after

theorem suffixed_of_apart {u : TypeTree} {rest : List Token}
    (h : rest.head? ≠ some (.mark '[')) : suffixed u rest = (u, rest) := by
  rw [suffixed]
  rintro after rfl
  exact h rfl

theorem IsAtom.isPart {text : String} {u : TypeTree} (h : IsAtom text u) :
    IsPart .intersection text u := by
  obtain ⟨ts, hs, hr⟩ := h
  refine ⟨ts, hs, fun rest ha => ?_⟩
  have hread := hr rest fun m hm => ha m (by simp_all [Connective.tighter])
  rwa [suffixed_of_apart (ha '[' (by simp [Connective.tighter]))] at hread

theorem IsPart.areParts {c : Connective} {text : String} {u : TypeTree} (h : IsPart c text u) :
    AreParts c text [u] := by
  obtain ⟨ts, hs, hr⟩ := h
  refine ⟨ts, hs, fun rest vs after ha hc => ?_⟩
  cases hc with
  | more hm => exact (hr _ ha).parts_cons hm
  | done hd => exact (hr _ ha).parts_last hd

theorem divides_separator (c : Connective) : Divides c.separator [.mark c.mark] := by
  cases c with
  | union => exact divides_punctuation " | " (by decide)
  | intersection => exact divides_punctuation " & " (by decide)

theorem AreParts.append {c : Connective} {s t : String} {us vs : List TypeTree}
    (hs : AreParts c s us) (ht : AreParts c t vs) :
    AreParts c (s ++ c.separator ++ t) (us ++ vs) := by
  obtain ⟨ls, hls, hrs⟩ := hs
  obtain ⟨lt, hlt, hrt⟩ := ht
  refine ⟨ls ++ [Token.mark c.mark] ++ lt,
    (hls.append_divides (divides_separator c)).append_scans hlt,
    fun rest ws after ha hc => ?_⟩
  have hread := hrs _ _ _ (apart_mark (by cases c <;> decide)) (.more (hrt rest ws after ha hc))
  simpa using hread

theorem AreParts.joinWith {c : Connective} {texts : List String} {uss : List (List TypeTree)}
    (h : List.Forall₂ (AreParts c) texts uss) (hne : texts ≠ []) :
    AreParts c (Text.joinWith c.separator texts) uss.flatten := by
  induction h with
  | nil => exact absurd rfl hne
  | @cons text us texts uss hp hrest ih =>
    cases hrest with
    | nil => simpa [Text.joinWith] using hp
    | cons hq hrest =>
      rw [Text.joinWith, List.flatten_cons]
      exact hp.append (ih (by simp))

theorem AreParts.isPart {text : String} {us : List TypeTree} (h : AreParts .intersection text us) :
    IsPart .union text (.joined .intersection us) := by
  obtain ⟨ts, hs, hr⟩ := h
  refine ⟨ts, hs, fun rest ha => ?_⟩
  have hread := hr rest [] rest (fun m hm => ha m (List.mem_append_left ['&'] hm))
    (.done (ha '&' (by simp [Connective.tighter])))
  rw [List.append_nil] at hread
  exact hread.intersections

/-- A type in front of what ends it. -/
def IsType (text : String) (u : TypeTree) : Prop :=
  ∃ ts us, Scans text ts ∧ u = .joined .union us ∧ ∀ rest, Apart ['<', '[', '&', '|'] rest →
    Reads (readParts .union) (ts ++ rest) us rest

theorem AreParts.isType {text : String} {us : List TypeTree} (h : AreParts .union text us) :
    IsType text (.joined .union us) := by
  obtain ⟨ts, hs, hr⟩ := h
  refine ⟨ts, us, hs, rfl, fun rest ha => ?_⟩
  have hread := hr rest [] rest (fun m hm => ha m (List.mem_append_left ['|'] hm))
    (.done (ha '|' (by simp)))
  rwa [List.append_nil] at hread

theorem IsAtom.array {text : String} {u : TypeTree} (h : IsAtom text u) :
    IsAtom (text ++ "[]") (.array u) := by
  obtain ⟨ts, hs, hr⟩ := h
  refine ⟨_, (hs.append_divides (divides_punctuation "[]" (by decide))).scans,
    fun rest ha => ?_⟩
  have hread := hr (.mark '[' :: .mark ']' :: rest) (apart_mark (by decide))
  rw [suffixed] at hread
  rw [List.append_assoc]
  exact hread

theorem IsType.parenthesized {text : String} {u : TypeTree} (h : IsType text u) :
    IsAtom ("(" ++ text ++ ")") u := by
  obtain ⟨ts, us, hs, rfl, hr⟩ := h
  have hopen := (divides_punctuation "(" (by decide)).closed.append_scans hs
  refine ⟨_, (hopen.append_divides (divides_punctuation ")" (by decide))).scans,
    fun rest _ => ?_⟩
  rw [List.append_assoc]
  exact (hr (.mark ')' :: rest) (apart_mark (by decide))).parenthesized.suffixed

theorem IsAtom.name {s : String} (h : isName s.toList = true) : IsAtom s (.ofWord s) :=
  ⟨_, .word s h, fun _ ha => (Reads.word s (ha '<' (by simp))).suffixed⟩

theorem IsAtom.number {s : String} (h : isInteger s.toList = true) : IsAtom s (.literal s) :=
  ⟨_, .number h, fun _ _ => (Reads.number s).suffixed⟩

theorem IsAtom.string {s : String} {cs body : List Char} (hs : s.toList = '"' :: cs)
    (h : quotedBody cs = some (body, [])) : IsAtom s (.literal s) := by
  have hbody : s = String.ofList ('"' :: body ++ ['"']) := by
    rw [List.cons_append, ← eq_of_quotedBody h, ← hs, String.ofList_toList]
  refine ⟨[.string body], fun rest _ => ?_, fun rest _ => ?_⟩
  · rw [hs, List.cons_append, scan_string (quotedBody_append h)]
    rfl
  · have hread := (Reads.string rest body).suffixed
    rwa [← hbody] at hread

theorem items_joinWith {texts : List String} {us : List TypeTree}
    (h : List.Forall₂ IsType texts us) :
    ∃ ts, Scans (Text.joinWith ", " texts) ts ∧
      ∀ rest, Reads readItems (ts ++ .mark ']' :: rest) us rest := by
  induction h with
  | nil => exact ⟨[], fun rest _ => by simp [Text.joinWith], fun rest => .items_nil⟩
  | @cons text u texts us hp hrest ih =>
    obtain ⟨lp, vs, hlp, rfl, hrp⟩ := hp
    cases hrest with
    | nil =>
      exact ⟨lp, hlp, fun rest => (hrp (.mark ']' :: rest) (apart_mark (by decide))).items_last⟩
    | cons hq hrest =>
      obtain ⟨ls, hls, hrs⟩ := ih
      refine ⟨_, (hlp.append_divides (divides_punctuation ", " (by decide))).append_scans
        hls, fun rest => ?_⟩
      rw [List.append_assoc, List.append_assoc]
      exact (hrp (.mark ',' :: _) (apart_mark (by decide))).items_cons (hrs rest)

theorem IsAtom.tuple {texts : List String} {us : List TypeTree}
    (h : List.Forall₂ IsType texts us) :
    IsAtom ("[" ++ Text.joinWith ", " texts ++ "]") (.tuple us) := by
  obtain ⟨ts, hs, hr⟩ := items_joinWith h
  have hopen := (divides_punctuation "[" (by decide)).closed.append_scans hs
  refine ⟨_, (hopen.append_divides (divides_punctuation "]" (by decide))).scans,
    fun rest _ => ?_⟩
  rw [List.append_assoc]
  exact (hr rest).tuple.suffixed

theorem stringOf_quoted (s : String) : stringOf (s.toList.flatMap Text.quotedChar) = some s := by
  rw [stringOf, unescape_flatMap, Option.map_some, String.ofList_toList]

theorem keys_joinWith {keys : List String} (hne : keys ≠ []) :
    ∃ ts, Closed (Text.joinWith " | " (keys.map Text.quote)) ts ∧
      ∀ rest, Reads readKeys (ts ++ .mark '>' :: rest) keys rest := by
  induction keys with
  | nil => exact absurd rfl hne
  | cons key keys ih =>
    cases keys with
    | nil => exact ⟨_, .quote key, fun rest => .keys_last (stringOf_quoted key)⟩
    | cons next keys =>
      obtain ⟨ts, hs, hr⟩ := ih (by simp)
      refine ⟨_, ((Closed.quote key).append (divides_separator .union).closed).append hs,
        fun rest => ?_⟩
      rw [List.append_assoc, List.append_assoc]
      exact (hr rest).keys_cons (stringOf_quoted key)

theorem IsType.requiring {text : String} {u : TypeTree} {keys : List String}
    (h : IsType text u) (hne : keys ≠ []) :
    IsAtom ("Require<" ++ text ++ ", " ++ Text.joinWith " | " (keys.map Text.quote) ++ ">")
      (.requiring u keys) := by
  obtain ⟨ts, us, hs, rfl, hr⟩ := h
  obtain ⟨ks, hks, hrk⟩ := keys_joinWith hne
  have hopen : Closed ("Require" ++ "<") ([Token.word "Require"] ++ [Token.mark '<']) :=
    (Scans.word "Require" (by decide)).append_divides (divides_punctuation "<" (by decide))
  have hinner := (hopen.append_scans hs).append_divides
    (divides_punctuation ", " (by decide))
  refine ⟨_, ((hinner.append hks).append
    (divides_punctuation ">" (by decide)).closed).scans, fun rest _ => ?_⟩
  simp only [List.append_assoc]
  exact ((hr (.mark ',' :: _) (apart_mark (by decide))).requiring (hrk rest)).suffixed

def AreMembers (text : String) (ms : List (Key × TypeTree)) : Prop :=
  ∃ ts, Closed text ts ∧ ∀ rest ns after, Reads readMembers rest ns after →
    Reads readMembers (ts ++ rest) (ms ++ ns) after

theorem AreMembers.append {s t : String} {ms ns : List (Key × TypeTree)} (hs : AreMembers s ms)
    (ht : AreMembers t ns) : AreMembers (s ++ "\n" ++ t) (ms ++ ns) := by
  obtain ⟨ls, hls, hrs⟩ := hs
  obtain ⟨lt, hlt, hrt⟩ := ht
  have hbreak := (divides_punctuation "\n" (by decide)).closed
  refine ⟨_, (hls.append hbreak).append hlt, fun rest ks after h => ?_⟩
  rw [List.append_assoc, List.append_assoc]
  simp only [List.append_assoc]
  exact hrs _ _ _ (hrt rest ks after h)

theorem AreMembers.joinWith {texts : List String} {ms : List (Key × TypeTree)}
    (h : List.Forall₂ (fun text m => AreMembers text [m]) texts ms) :
    AreMembers (Text.joinWith "\n" texts) ms := by
  induction h with
  | nil => exact ⟨[], fun rest => by simp [Text.joinWith], fun rest ns after h => h⟩
  | @cons text m texts ms hp hrest ih =>
    cases hrest with
    | nil => exact hp
    | cons hq hrest => exact hp.append ih

theorem AreMembers.braces {text : String} {ms : List (Key × TypeTree)} (h : AreMembers text ms) :
    IsAtom ("\x7b\n" ++ text ++ "\n\x7d") (.braces ms) := by
  obtain ⟨ts, hs, hr⟩ := h
  have hopen := (divides_punctuation "\x7b\n" (by decide)).closed.append hs
  refine ⟨_, (hopen.append (divides_punctuation "\n\x7d" (by decide)).closed).scans,
    fun rest _ => ?_⟩
  have hread := hr (.mark '\x7d' :: rest) [] rest .members_nil
  rw [List.append_nil] at hread
  rw [List.append_assoc]
  exact hread.braces.suffixed

theorem isAlpha_range {c : Char} (h : c.isAlpha = true) : 65 ≤ c.toNat ∧ c.toNat ≤ 122 := by
  delta Char.isAlpha Char.isUpper Char.isLower at h
  simp [UInt32.le_iff_toNat_le] at h
  omega

theorem isNameStart_of_isIdentifierStart {c : Char} (h : Naming.isIdentifierStart c = true) :
    isNameStart c = true := by
  simp only [Naming.isIdentifierStart, Bool.or_eq_true, beq_iff_eq] at h
  rcases h with (h | rfl) | rfl
  · obtain ⟨hlo, hhi⟩ := isAlpha_range h
    have hd : Text.isDecimalDigit c = false := by
      simp [Text.isDecimalDigit, Char.le_def, UInt32.le_iff_toNat_le]
      omega
    simp [isNameStart, isNamePart, Text.isWordChar,
      Text.isLetterOrDigit_ascii (show c.toNat < 0x80 by omega), Char.isAlphanum, h, hd]
  · decide
  · decide

theorem isNamePart_of_isIdentifierPart {c : Char} (h : Naming.isIdentifierPart c = true) :
    isNamePart c = true := by
  by_cases hs : Naming.isIdentifierStart c = true
  · have hstart := isNameStart_of_isIdentifierStart hs
    rw [isNameStart, Bool.and_eq_true] at hstart
    exact hstart.1
  · refine isNamePart_of_isDecimalDigit ?_
    simp [Naming.isIdentifierPart, Naming.isIdentifierStart, Char.isAlphanum] at h hs
    have hd : c.isDigit = true := by grind
    simpa [Text.isDecimalDigit, Char.isDigit, Char.le_def] using hd

theorem isName_of_isBare {cs : List Char} (h : Naming.isBare cs = true) : isName cs = true := by
  cases cs with
  | nil => cases h
  | cons c cs =>
    rw [Naming.isBare, Bool.and_eq_true, List.all_eq_true] at h
    rw [isName, Bool.and_eq_true, List.all_eq_true]
    exact ⟨isNameStart_of_isIdentifierStart h.1,
      fun d hd => isNamePart_of_isIdentifierPart (h.2 d hd)⟩

theorem key_propertyKey {name : String} (h : name.toList.getLast? ≠ some '\n') :
    ∃ ts, Scans (Naming.propertyKey name) ts ∧ ∀ required rest,
      Reads readKey (ts ++ (fieldMarks required ++ rest)) (.field name required) rest := by
  rw [Naming.propertyKey]
  by_cases hi : Naming.isIdentifier name = true
  · rw [if_pos hi]
    rw [Naming.isIdentifier, Text.dropFinal, if_neg h] at hi
    exact ⟨_, .word name (isName_of_isBare hi), fun required _ => reads_wordKey name required⟩
  · rw [if_neg hi]
    exact ⟨_, (Closed.quote name).scans,
      fun required _ => reads_stringKey (stringOf_quoted name) required⟩

theorem divides_fieldMarks (required : Bool) :
    Divides ((if required then "" else "?") ++ ": ") (fieldMarks required) := by
  cases required with
  | true => exact divides_punctuation ": " (by decide)
  | false => exact divides_punctuation "?: " (by decide)

theorem IsType.member {text line : String} {u : TypeTree} {ks : List Token}
    (h : IsType text u) (key : Key) (hk : Closed line ks)
    (hr : ∀ rest, Reads readKey (ks ++ rest) key rest) :
    AreMembers (line ++ text ++ ";") [(key, u)] := by
  obtain ⟨ts, us, hs, rfl, hread⟩ := h
  refine ⟨_, (hk.append_scans hs).append_divides (divides_punctuation ";" (by decide)),
    fun rest ns after hn => ?_⟩
  simp only [List.append_assoc]
  exact (hr _).members_cons (hread (.mark ';' :: rest) (apart_mark (by decide))) hn

theorem IsType.field {text : String} {u : TypeTree} {f : Field} (h : IsType text u)
    (hd : f.description.getD "" = "") (hn : f.name.toList.getLast? ≠ some '\n') :
    AreMembers (TypeExpr.renderField f text) [(.field f.name f.required, u)] := by
  obtain ⟨ts, hs, hr⟩ := key_propertyKey hn
  have hindent := (divides_punctuation "  " (by decide)).closed
  have hline := (hindent.append_scans hs).append_divides (divides_fieldMarks f.required)
  have hmember := h.member (.field f.name f.required) hline fun rest => by
    rw [List.append_assoc, List.append_assoc]
    exact hr f.required rest
  simpa [TypeExpr.renderField, hd, Naming.docComment, String.append_assoc] using hmember

def indexMarks : List Token :=
  [.mark '[', .word "key", .mark ':', .word "string", .mark ']', .mark ':']

theorem closed_indexMarks : Closed "[key: string]: " indexMarks := by
  have htext : "[key: string]: " = "[" ++ "key" ++ ": " ++ "string" ++ "]: " := by decide
  have hopen := (divides_punctuation "[" (by decide)).closed
  have hkey := (hopen.append_scans (.word "key" (by decide))).append_divides
    (divides_punctuation ": " (by decide))
  rw [htext]
  exact (hkey.append_scans (.word "string" (by decide))).append_divides
    (divides_punctuation "]: " (by decide))

theorem IsType.index {text : String} {u : TypeTree} (h : IsType text u) :
    AreMembers ("  [key: string]: " ++ text ++ ";") [(.index, u)] := by
  have hline := (divides_punctuation "  " (by decide)).closed.append closed_indexMarks
  exact h.member .index hline fun rest => reads_indexKey "key"

theorem IsType.indexOnly {text : String} {u : TypeTree} (h : IsType text u) :
    IsAtom ("\x7b[key: string]: " ++ text ++ "\x7d") (.braces [(.index, u)]) := by
  obtain ⟨ts, us, hs, rfl, hr⟩ := h
  have hopen := (divides_punctuation "\x7b" (by decide)).closed.append closed_indexMarks
  refine ⟨_, ((hopen.append_scans hs).append_divides
    (divides_punctuation "\x7d" (by decide))).scans, fun rest _ => ?_⟩
  simp only [List.append_assoc]
  have hread := hr (.mark '\x7d' :: rest) (apart_mark (by decide))
  exact ((reads_indexKey "key").members_last hread).braces.suffixed

theorem IsAtom.emptyBraces : IsAtom "\x7b\x7d" (.braces []) :=
  ⟨_, (divides_punctuation "\x7b\x7d" (by decide)).closed.scans,
    fun _ _ => Reads.members_nil.braces.suffixed⟩

end ApiBindings.TypeText
