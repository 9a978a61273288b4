import Mathlib.Data.List.Basic
import TxTestTool.Codec.Hex

/-!
# JSON text

The values that structs, enums, strings and unsigned numbers of any size are written as. The text
has no spaces; it is read with any, with all escapes, and down to a limit of nested brackets.
-/

inductive Json
  | null
  | num (n : Nat)
  | str (s : String)
  | arr (items : List Json)
  | obj (members : List (String × Json))

namespace Json

/-! ## Writing -/

/-- The characters with an escape of one letter. -/
def letters : List (Char × Char) :=
  [('"', '"'), ('\\', '\\'), ('\x08', 'b'), ('\t', 't'), ('\n', 'n'), ('\x0c', 'f'), ('\r', 'r')]

def escape (c : Char) : List Char :=
  match letters.lookup c with
  | some letter => ['\\', letter]
  | none =>
      if c.toNat < 32 then
        ['\\', 'u', '0', '0', Nat.digitChar (c.toNat / 16), Nat.digitChar (c.toNat % 16)]
      else [c]

def quote (s : String) : List Char := '"' :: s.toList.flatMap escape ++ ['"']

/-- The texts with commas in between. -/
def commas : List (List Char) → List Char
  | [] => []
  | [text] => text
  | text :: texts => text ++ ',' :: commas texts

mutual

def render : Json → List Char
  | .null => ['n', 'u', 'l', 'l']
  | .num n => Nat.toDigits 10 n
  | .str s => quote s
  | .arr items => '[' :: commas (renderItems items) ++ [']']
  | .obj members => '{' :: commas (renderMembers members) ++ ['}']

def renderItems : List Json → List (List Char)
  | [] => []
  | item :: items => render item :: renderItems items

def renderMembers : List (String × Json) → List (List Char)
  | [] => []
  | (key, value) :: members => (quote key ++ ':' :: render value) :: renderMembers members

end

/-! ## Reading -/

/-- What has been read, and the rest of the text. -/
abbrev Reader (α : Type) := List Char → Option (α × List Char)

def isSpace (c : Char) : Bool := c = ' ' || c = '\n' || c = '\t' || c = '\r'

def skip (s : List Char) : List Char := s.dropWhile isSpace

def unescape (letter : Char) : Option Char :=
  if letter = '/' then some '/' else (letters.find? (·.2 = letter)).map (·.1)

def hex4 (a b c d : Char) : Option Nat := do
  let a ← Hex.value a
  let b ← Hex.value b
  let c ← Hex.value c
  let d ← Hex.value d
  return ((a * 16 + b) * 16 + c) * 16 + d

def push (c : Char) (r : List Char × List Char) : List Char × List Char := (c :: r.1, r.2)

/-- The characters up to the closing quote. -/
def readChars : Reader (List Char)
  | [] => none
  | '"' :: s => some ([], s)
  | '\\' :: 'u' :: a :: b :: c :: d :: s =>
      (hex4 a b c d).bind fun n =>
        if 0xD800 ≤ n ∧ n < 0xDC00 then
          match s with
          | '\\' :: 'u' :: a :: b :: c :: d :: s =>
              (hex4 a b c d).bind fun m =>
                if 0xDC00 ≤ m ∧ m < 0xE000 then
                  (readChars s).map
                    (push (Char.ofNat (0x10000 + (n - 0xD800) * 0x400 + (m - 0xDC00))))
                else none
          | _ => none
        else if 0xDC00 ≤ n ∧ n < 0xE000 then none
        else (readChars s).map (push (Char.ofNat n))
  | '\\' :: letter :: s => (unescape letter).bind fun c => (readChars s).map (push c)
  | c :: s => if c.toNat < 32 then none else (readChars s).map (push c)

def readString (s : List Char) : Option (String × List Char) :=
  (readChars s).map fun r => (String.ofList r.1, r.2)

/-- Digits without a leading zero. -/
def readNumber (s : List Char) : Option (Json × List Char) :=
  let digits := s.takeWhile Char.isDigit
  let n := Nat.ofDigitChars 10 digits 0
  if digits = Nat.toDigits 10 n then some (.num n, s.dropWhile Char.isDigit) else none

def readScalar : Reader Json
  | '"' :: s => (readString s).map fun r => (.str r.1, r.2)
  | 'n' :: 'u' :: 'l' :: 'l' :: s => some (.null, s)
  | s => readNumber s

/-- At least one item, up to the closing bracket. Every item takes up some text, so its length
bounds their number. -/
def readItems {α : Type} (item : Reader α) (close : Char) : Nat → Reader (List α)
  | 0, _ => none
  | fuel + 1, s =>
      (item s).bind fun r =>
        match skip r.2 with
        | [] => none
        | c :: s =>
            if c = ',' then (readItems item close fuel s).map fun rs => (r.1 :: rs.1, rs.2)
            else if c = close then some ([r.1], s) else none

def readClosed {α : Type} (item : Reader α) (close : Char) : Reader (List α) := fun s =>
  match skip s with
  | [] => none
  | c :: rest => if c = close then some ([], rest) else readItems item close s.length s

def readMember (value : Reader Json) : Reader (String × Json) := fun s =>
  match skip s with
  | '"' :: s =>
      (readString s).bind fun key =>
        match skip key.2 with
        | ':' :: s => (value s).map fun r => ((key.1, r.1), r.2)
        | _ => none
  | _ => none

/-- A value with at most the given number of nested brackets. -/
def readValue : Nat → Reader Json
  | 0, s => readScalar (skip s)
  | depth + 1, s =>
      match skip s with
      | '[' :: s => (readClosed (readValue depth) ']' s).map fun r => (.arr r.1, r.2)
      | '{' :: s =>
          (readClosed (readMember (readValue depth)) '}' s).map fun r => (.obj r.1, r.2)
      | s => readScalar s

/-- The recursion limit of the reader is 128. -/
def parse (text : String) : Option Json :=
  (readValue 127 text.toList).bind fun r => if skip r.2 = [] then some r.1 else none

def toText (j : Json) : String := String.ofList j.render

/-! ## Reading what has been written -/

/-- The brackets are nested at most so deep. -/
def Fits : Nat → Json → Prop
  | 0, .arr _ => False
  | 0, .obj _ => False
  | depth + 1, .arr items => ∀ item ∈ items, Fits depth item
  | depth + 1, .obj members => ∀ member ∈ members, Fits depth member.2
  | _, _ => True

/-- A number may end here. -/
def Ends (rest : List Char) : Prop := ∀ c ∈ rest.head?, c.isDigit = false

variable {s rest : List Char} {depth n : Nat} {j : Json}

theorem renderItems_eq (items : List Json) : renderItems items = items.map render := by
  induction items with
  | nil => rfl
  | cons item items ih => rw [renderItems, ih, List.map_cons]

def renderMember (member : String × Json) : List Char := quote member.1 ++ ':' :: render member.2

theorem renderMembers_eq (members : List (String × Json)) :
    renderMembers members = members.map renderMember := by
  induction members with
  | nil => rfl
  | cons member members ih => rw [renderMembers, ih, List.map_cons, renderMember]

theorem skip_cons {c : Char} (h : isSpace c = false) : skip (c :: s) = c :: s := by
  simp [skip, h]

theorem Ends.cons {c : Char} (h : c.isDigit = false) : Ends (c :: rest) := by
  intro c' hc
  cases hc
  exact h

theorem Ends.nil : Ends [] := by
  intro c hc
  cases hc

theorem readNumber_append (hrest : Ends rest) :
    readNumber (Nat.toDigits 10 n ++ rest) = some (.num n, rest) := by
  have hdigits : ∀ c ∈ Nat.toDigits 10 n, c.isDigit = true :=
    fun c hc => Nat.isDigit_of_mem_toDigits (by decide) (by decide) hc
  have hnone : rest.takeWhile Char.isDigit = [] ∧ rest.dropWhile Char.isDigit = rest := by
    cases rest with
    | nil => exact ⟨rfl, rfl⟩
    | cons c rest => simp [hrest c rfl]
  have htake : (Nat.toDigits 10 n ++ rest).takeWhile Char.isDigit = Nat.toDigits 10 n := by
    rw [List.takeWhile_append_of_pos hdigits, hnone.1, List.append_nil]
  have hdrop : (Nat.toDigits 10 n ++ rest).dropWhile Char.isDigit = rest := by
    rw [List.dropWhile_append_of_pos hdigits, hnone.2]
  simp [readNumber, htake, hdrop, Nat.ofDigitChars_ten_toDigits]

theorem letters_spec : ∀ p ∈ letters, unescape p.2 = some p.1 ∧ p.2 ≠ 'u' := by decide

theorem hex4_control : ∀ n < 32,
    hex4 '0' '0' (Nat.digitChar (n / 16)) (Nat.digitChar (n % 16)) = some n := by decide

theorem readChars_letter {letter : Char} (h : letter ≠ 'u') :
    readChars ('\\' :: letter :: s) =
      (unescape letter).bind fun c => (readChars s).map (push c) := by
  rw [readChars]
  intro _ _ _ _ _ hu _
  exact h hu

theorem readChars_plain {c : Char} (hquote : c ≠ '"') (hslash : c ≠ '\\') (hlow : ¬ c.toNat < 32) :
    readChars (c :: s) = (readChars s).map (push c) := by
  rw [readChars, if_neg hlow]
  · exact hquote
  · intro _ _ _ _ _ hc _
    exact hslash hc
  · intro _ _ hc _
    exact hslash hc

theorem readChars_escape (c : Char) :
    readChars (escape c ++ s) = (readChars s).map (push c) := by
  unfold escape
  split
  · rename_i letter hletter
    obtain ⟨l₁, l₂, hsplit, _⟩ := List.lookup_eq_some_iff.mp hletter
    obtain ⟨hback, hu⟩ := letters_spec (c, letter) (by rw [hsplit]; simp)
    rw [List.cons_append, List.cons_append, List.nil_append, readChars_letter hu, hback,
      Option.bind_some]
  · rename_i hnone
    have hne : ∀ p ∈ letters, c ≠ p.1 := by simpa using List.lookup_eq_none_iff.mp hnone
    split
    · rename_i hlow
      have hnot : ¬ (0xD800 ≤ c.toNat ∧ c.toNat < 0xDC00) := by omega
      have hnot' : ¬ (0xDC00 ≤ c.toNat ∧ c.toNat < 0xE000) := by omega
      simp only [List.cons_append, List.nil_append, readChars, hex4_control c.toNat hlow,
        Option.bind_some, hnot, hnot', ↓reduceIte, Char.ofNat_toNat]
    · rename_i hlow
      exact readChars_plain (hne ('"', '"') (by decide)) (hne ('\\', '\\') (by decide)) hlow

theorem readChars_quote (cs : List Char) :
    readChars (cs.flatMap escape ++ '"' :: rest) = some (cs, rest) := by
  induction cs with
  | nil => rfl
  | cons c cs ih =>
      rw [List.flatMap_cons, List.append_assoc, readChars_escape, ih]
      rfl

theorem readString_quote (k : String) :
    readString (k.toList.flatMap escape ++ '"' :: rest) = some (k, rest) := by
  rw [readString, readChars_quote, Option.map_some, String.ofList_toList]

/-! ### Lists in brackets -/

/-- The text begins with a character that is neither a space nor the closing bracket. -/
def Opens (close : Char) (text : List Char) : Prop :=
  ∃ c rest, text = c :: rest ∧ isSpace c = false ∧ c ≠ close

structure Closes (close : Char) : Prop where
  not_digit : close.isDigit = false
  not_space : isSpace close = false
  not_comma : close ≠ ','

theorem closes_arr : Closes ']' := ⟨rfl, rfl, by decide⟩

theorem closes_obj : Closes '}' := ⟨rfl, rfl, by decide⟩

section

variable {α : Type} {item : Reader α} {text : α → List Char} {close : Char} {as : List α}
  {fuel : Nat}

theorem readItems_commas (hclose : Closes close) (hne : as ≠ [])
    (hitem : ∀ a ∈ as, ∀ rest, Ends rest → item (text a ++ rest) = some (a, rest))
    (hfuel : as.length ≤ fuel) :
    readItems item close fuel (commas (as.map text) ++ close :: rest) = some (as, rest) := by
  induction as generalizing fuel with
  | nil => exact absurd rfl hne
  | cons a as ih =>
      cases fuel with
      | zero => cases hfuel
      | succ fuel =>
          cases as with
          | nil =>
              have hone := hitem a (List.mem_cons_self ..) (close :: rest) (.cons hclose.not_digit)
              simp only [List.map_cons, List.map_nil, commas, readItems, hone, Option.bind_some,
                skip_cons hclose.not_space, hclose.not_comma, ↓reduceIte]
          | cons b as =>
              have hone := hitem a (List.mem_cons_self ..)
                (',' :: (commas ((b :: as).map text) ++ close :: rest)) (.cons rfl)
              have hrest := ih (List.cons_ne_nil _ _)
                (fun x hx => hitem x (List.mem_cons_of_mem _ hx)) (Nat.le_of_succ_le_succ hfuel)
              have hcommas : commas ((a :: b :: as).map text) ++ close :: rest =
                  text a ++ ',' :: (commas ((b :: as).map text) ++ close :: rest) := by
                simp [commas]
              rw [hcommas, readItems, hone, Option.bind_some, skip_cons rfl]
              simp only [↓reduceIte, hrest, Option.map_some]

theorem length_le_commas (hopens : ∀ a ∈ as, Opens close (text a)) :
    as.length ≤ (commas (as.map text)).length := by
  induction as with
  | nil => simp
  | cons a as ih =>
      obtain ⟨c, s, htext, _⟩ := hopens a (List.mem_cons_self ..)
      have hrest := ih fun b hb => hopens b (List.mem_cons_of_mem _ hb)
      cases as with
      | nil => simp [commas, htext]
      | cons b as =>
          simp only [List.map_cons, commas, htext, List.length_append, List.length_cons] at hrest ⊢
          omega

theorem opens_commas (hne : as ≠ []) (hopens : ∀ a ∈ as, Opens close (text a)) :
    Opens close (commas (as.map text)) := by
  cases as with
  | nil => exact absurd rfl hne
  | cons a as =>
      obtain ⟨c, s, htext, hc⟩ := hopens a (List.mem_cons_self ..)
      cases as with
      | nil => exact ⟨c, s, by simp [commas, htext], hc⟩
      | cons b as => exact ⟨c, s ++ ',' :: commas ((b :: as).map text), by simp [commas, htext], hc⟩

theorem readClosed_commas (hclose : Closes close)
    (hopens : ∀ a ∈ as, Opens close (text a))
    (hitem : ∀ a ∈ as, ∀ rest, Ends rest → item (text a ++ rest) = some (a, rest)) :
    readClosed item close (commas (as.map text) ++ close :: rest) = some (as, rest) := by
  by_cases hne : as = []
  · subst hne
    simp [readClosed, commas, skip_cons hclose.not_space]
  · obtain ⟨c, s, htext, hspace, hc⟩ := opens_commas hne hopens
    have hfuel : as.length ≤ (commas (as.map text) ++ close :: rest).length := by
      have := length_le_commas hopens
      rw [List.length_append]
      omega
    have hitems : readItems item close (commas (as.map text) ++ close :: rest).length
        (commas (as.map text) ++ close :: rest) = some (as, rest) :=
      readItems_commas hclose hne hitem hfuel
    rw [htext, List.cons_append] at hitems ⊢
    simp only [readClosed, skip_cons hspace, hc, ↓reduceIte, hitems]

end

/-! ### Values -/

theorem ne_of_isDigit {c d : Char} (hc : c.isDigit = true) (hd : d.isDigit = false) : c ≠ d := by
  rintro rfl
  rw [hd] at hc
  cases hc

theorem isSpace_of_isDigit {c : Char} (h : c.isDigit = true) : isSpace c = false := by
  simp [isSpace, ne_of_isDigit h (show ' '.isDigit = false by rfl),
    ne_of_isDigit h (show '\n'.isDigit = false by rfl),
    ne_of_isDigit h (show '\t'.isDigit = false by rfl),
    ne_of_isDigit h (show '\r'.isDigit = false by rfl)]

theorem exists_toDigits (n : Nat) : ∃ c s, Nat.toDigits 10 n = c :: s ∧ c.isDigit = true := by
  obtain ⟨c, s, hs⟩ := List.exists_cons_of_ne_nil (Nat.toDigits_ne_nil (n := n) (b := 10))
  have hmem : c ∈ Nat.toDigits 10 n := by simp [hs]
  exact ⟨c, s, hs, Nat.isDigit_of_mem_toDigits (by decide) (by decide) hmem⟩

theorem opens_render {close : Char} (h : close = ']' ∨ close = '}') :
    Opens close (render j) := by
  have hhead : ∃ c s, render j = c :: s ∧ isSpace c = false ∧ c ≠ ']' ∧ c ≠ '}' := by
    cases j with
    | null => exact ⟨'n', _, rfl, rfl, by decide, by decide⟩
    | num n =>
        obtain ⟨c, s, hs, hc⟩ := exists_toDigits n
        exact ⟨c, s, hs, isSpace_of_isDigit hc, ne_of_isDigit hc rfl, ne_of_isDigit hc rfl⟩
    | str s => exact ⟨'"', _, rfl, rfl, by decide, by decide⟩
    | arr items => exact ⟨'[', _, rfl, rfl, by decide, by decide⟩
    | obj members => exact ⟨'{', _, rfl, rfl, by decide, by decide⟩
  obtain ⟨c, s, hs, hspace, harr, hobj⟩ := hhead
  refine ⟨c, s, hs, hspace, ?_⟩
  rcases h with rfl | rfl
  · exact harr
  · exact hobj

theorem readValue_scalar {c : Char} (hspace : isSpace c = false) (harr : c ≠ '[') (hobj : c ≠ '{') :
    readValue depth (c :: s) = readScalar (c :: s) := by
  cases depth with
  | zero => rw [readValue, skip_cons hspace]
  | succ depth =>
      rw [readValue, skip_cons hspace]
      split
      · rename_i h
        cases h
        exact absurd rfl harr
      · rename_i h
        cases h
        exact absurd rfl hobj
      · rfl

theorem readValue_num (hrest : Ends rest) :
    readValue depth (Nat.toDigits 10 n ++ rest) = some (.num n, rest) := by
  have hnumber := readNumber_append (n := n) hrest
  obtain ⟨c, s, hs, hc⟩ := exists_toDigits n
  rw [hs, List.cons_append] at hnumber ⊢
  rw [readValue_scalar (isSpace_of_isDigit hc) (ne_of_isDigit hc rfl) (ne_of_isDigit hc rfl),
    readScalar, hnumber]
  · intro _ h
    exact ne_of_isDigit hc rfl (List.cons.inj h).1
  · intro _ h
    exact ne_of_isDigit hc rfl (List.cons.inj h).1

theorem readValue_str (k : String) :
    readValue depth (quote k ++ rest) = some (.str k, rest) := by
  have hstring : readString (k.toList.flatMap escape ++ '"' :: rest) = some (k, rest) :=
    readString_quote k
  rw [quote, List.append_assoc, List.cons_append, readValue_scalar rfl (by decide) (by decide)]
  simp only [List.cons_append, List.nil_append, readScalar, hstring, Option.map_some]

theorem readMember_quote {member : String × Json}
    (hvalue : readValue depth (render member.2 ++ rest) = some (member.2, rest)) :
    readMember (readValue depth) (renderMember member ++ rest) = some (member, rest) := by
  have hkey : readString (member.1.toList.flatMap escape ++ '"' :: ':' :: (render member.2 ++ rest)) =
      some (member.1, ':' :: (render member.2 ++ rest)) := readString_quote member.1
  have htext : renderMember member ++ rest =
      '"' :: (member.1.toList.flatMap escape ++ '"' :: ':' :: (render member.2 ++ rest)) := by
    simp [renderMember, quote]
  rw [htext, readMember, skip_cons rfl]
  simp only [hkey, Option.bind_some]
  rw [skip_cons rfl]
  simp only [hvalue, Option.map_some]

theorem readValue_render (h : j.Fits depth) (hrest : Ends rest) :
    readValue depth (j.render ++ rest) = some (j, rest) := by
  induction depth generalizing j rest with
  | zero =>
      cases j with
      | null => rfl
      | num n => exact readValue_num hrest
      | str s => exact readValue_str s
      | arr items => exact h.elim
      | obj members => exact h.elim
  | succ depth ih =>
      cases j with
      | null => rfl
      | num n => exact readValue_num hrest
      | str s => exact readValue_str s
      | arr items =>
          have htext : render (.arr items) ++ rest =
              '[' :: (commas (items.map render) ++ ']' :: rest) := by
            simp [render, renderItems_eq]
          have hitems : readClosed (readValue depth) ']' (commas (items.map render) ++ ']' :: rest) =
              some (items, rest) := by
            apply readClosed_commas closes_arr
            · exact fun item _ => opens_render (.inl rfl)
            · exact fun item hmem rest hrest => ih (h item hmem) hrest
          rw [htext, readValue, skip_cons rfl]
          simp only [hitems, Option.map_some]
      | obj members =>
          have htext : render (.obj members) ++ rest =
              '{' :: (commas (members.map renderMember) ++ '}' :: rest) := by
            simp [render, renderMembers_eq]
          have hmembers : readClosed (readMember (readValue depth)) '}'
              (commas (members.map renderMember) ++ '}' :: rest) = some (members, rest) := by
            apply readClosed_commas closes_obj
            · exact fun member _ => ⟨'"', _, rfl, rfl, by decide⟩
            · exact fun member hmem rest hrest => readMember_quote (ih (h member hmem) hrest)
          rw [htext, readValue, skip_cons rfl]
          simp only [hmembers, Option.map_some]

/-- Reading what has been written gives it back. -/
theorem parse_toText (h : j.Fits 127) : parse j.toText = some j := by
  have hread := readValue_render h Ends.nil
  rw [List.append_nil] at hread
  rw [parse, toText, String.toList_ofList, hread]
  rfl

end Json
