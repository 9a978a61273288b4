import Mathlib.Algebra.Group.Nat.Defs
import TxTestTool.Codec.Json
import TxTestTool.Machine.Results

/-!
# Encodings of data types as JSON

The derived encodings: structs are objects with a member for each field, enums are tagged by the
name of the variant from outside. An encoder may fail, so that a value that cannot be written is
none that has to be read back.
-/

namespace Json

variable {j : Json} {d e : Nat}

theorem Fits.mono (h : j.Fits d) (hle : d ≤ e) : j.Fits e := by
  induction d generalizing j e with
  | zero =>
      cases j with
      | arr items => exact h.elim
      | obj members => exact h.elim
      | null => cases e <;> trivial
      | num n => cases e <;> trivial
      | str s => cases e <;> trivial
  | succ d ih =>
      obtain ⟨e, rfl⟩ : ∃ e', e = e' + 1 := ⟨e - 1, by omega⟩
      cases j with
      | arr items => exact fun item hitem => ih (h item hitem) (by omega)
      | obj members => exact fun member hmember => ih (h member hmember) (by omega)
      | null => trivial
      | num n => trivial
      | str s => trivial

/-- A variant with data. -/
def variant (tag : String) (data : Json) : Json := .obj [(tag, data)]

/-- The name of a variant and its data. A variant without any is written as its name alone. -/
def tagged : Json → Option (String × Json)
  | .str tag => some (tag, .null)
  | .obj [(tag, data)] => some (tag, data)
  | _ => none

/-- The member of that name, which must be there once. -/
def field (members : List (String × Json)) (name : String) : Option Json :=
  match members.filter (·.1 = name) with
  | [member] => some member.2
  | _ => none

theorem fits_variant {tag : String} (h : j.Fits d) : (variant tag j).Fits (d + 1) := by
  intro member hmember
  cases List.mem_singleton.mp hmember
  exact h

end Json

/-- A text for every value, such as the keys of an object need. -/
structure TextForm (α : Type*) where
  write : α → String
  read : String → Option α
  read_write : ∀ a, read (write a) = some a

structure Codec (α : Type*) where
  encode : α → Option Json
  decode : Json → Option α
  /-- The values that can be written. -/
  Valid : α → Prop
  /-- How deep the brackets of an encoding are nested. -/
  depth : Nat
  law : ∀ a, Valid a → ∃ j, encode a = some j ∧ j.Fits depth ∧ decode j = some a

namespace Codec

variable {α β : Type*}

def unit : Codec Unit where
  encode _ := some .null
  decode
    | .null => some ()
    | _ => none
  Valid _ := True
  depth := 0
  law _ _ := ⟨.null, rfl, trivial, rfl⟩

/-- An unsigned number of a fixed width. -/
def nat (w : Nat) : Codec Nat where
  encode n := some (.num n)
  decode
    | .num n => if n < 2 ^ w then some n else none
    | _ => none
  Valid n := n < 2 ^ w
  depth := 0
  law n hn := ⟨.num n, rfl, trivial, if_pos hn⟩

def string : Codec String where
  encode s := some (.str s)
  decode
    | .str s => some s
    | _ => none
  Valid _ := True
  depth := 0
  law s _ := ⟨.str s, rfl, trivial, rfl⟩

def text (form : TextForm α) : Codec α where
  encode a := some (.str (form.write a))
  decode
    | .str s => form.read s
    | _ => none
  Valid _ := True
  depth := 0
  law a _ := ⟨.str (form.write a), rfl, trivial, form.read_write a⟩

def list (c : Codec α) : Codec (List α) where
  encode as := (as.mapM c.encode).map .arr
  decode
    | .arr items => items.mapM c.decode
    | _ => none
  Valid as := ∀ a ∈ as, c.Valid a
  depth := c.depth + 1
  law as has := by
    obtain ⟨items, hencode, hfits, hdecode⟩ := List.mapM_round_trip fun a ha => c.law a (has a ha)
    exact ⟨.arr items, by rw [hencode, Option.map_some], hfits, hdecode⟩

/-- The data of a variant with two fields. -/
def pair (c : Codec α) (d : Codec β) : Codec (α × β) where
  encode p := (c.encode p.1).bind fun x => (d.encode p.2).map fun y => .arr [x, y]
  decode
    | .arr [x, y] => (c.decode x).bind fun a => (d.decode y).map fun b => (a, b)
    | _ => none
  Valid p := c.Valid p.1 ∧ d.Valid p.2
  depth := max c.depth d.depth + 1
  law p hp := by
    obtain ⟨x, hx, hxfits, hxback⟩ := c.law p.1 hp.1
    obtain ⟨y, hy, hyfits, hyback⟩ := d.law p.2 hp.2
    refine ⟨.arr [x, y], by simp [hx, hy], ?_, by simp [hxback, hyback]⟩
    intro item hitem
    rcases List.mem_pair.mp hitem with rfl | rfl
    · exact hxfits.mono (Nat.le_max_left ..)
    · exact hyfits.mono (Nat.le_max_right ..)

def member (key : TextForm α) (c : Codec β) (entry : α × β) : Option (String × Json) :=
  (c.encode entry.2).map fun j => (key.write entry.1, j)

def entry (key : TextForm α) (c : Codec β) (member : String × Json) : Option (α × β) :=
  (key.read member.1).bind fun a => (c.decode member.2).map fun b => (a, b)

/-- The entries of a map. -/
def entries (key : TextForm α) (c : Codec β) : Codec (List (α × β)) where
  encode es := (es.mapM (member key c)).map .obj
  decode
    | .obj members => members.mapM (entry key c)
    | _ => none
  Valid es := ∀ e ∈ es, c.Valid e.2
  depth := c.depth + 1
  law es hes := by
    have hone : ∀ e ∈ es, ∃ m, member key c e = some m ∧ m.2.Fits c.depth ∧
        entry key c m = some e := by
      intro e he
      obtain ⟨j, hj, hfits, hback⟩ := c.law e.2 (hes e he)
      exact ⟨(key.write e.1, j), by simp [member, hj], hfits,
        by simp [entry, key.read_write, hback]⟩
    obtain ⟨members, hencode, hfits, hdecode⟩ := List.mapM_round_trip hone
    exact ⟨.obj members, by rw [hencode, Option.map_some], hfits, hdecode⟩

/-- The law of a variant with data, from that of its data. -/
theorem variant_law (c : Codec β) (tag : String) (make : β → α) (b : β) {encoded : Option Json}
    {decode : Json → Option α} {a : α} {d : Nat} (hb : c.Valid b) (hd : c.depth ≤ d)
    (ha : make b = a) (hencode : encoded = (c.encode b).map (Json.variant tag))
    (hdecode : ∀ data, decode (Json.variant tag data) = (c.decode data).map make) :
    ∃ j, encoded = some j ∧ j.Fits (d + 1) ∧ decode j = some a := by
  obtain ⟨data, hdata, hfits, hback⟩ := c.law b hb
  refine ⟨Json.variant tag data, ?_, Json.fits_variant (hfits.mono hd), ?_⟩
  · rw [hencode, hdata, Option.map_some]
  · rw [hdecode, hback, Option.map_some, ha]

/-! ## Whole texts -/

def write (c : Codec α) (a : α) : Option String := (c.encode a).map Json.toText

def read (c : Codec α) (text : String) : Option α := (Json.parse text).bind c.decode

theorem read_write (c : Codec α) (hdepth : c.depth ≤ 127) {a : α} (ha : c.Valid a) :
    ∃ text, c.write a = some text ∧ c.read text = some a := by
  obtain ⟨j, hencode, hfits, hdecode⟩ := c.law a ha
  refine ⟨j.toText, by rw [write, hencode, Option.map_some], ?_⟩
  rw [read, Json.parse_toText (hfits.mono hdepth), Option.bind_some, hdecode]

end Codec
