import Mathlib.Data.List.TakeWhile
import Mathlib.Data.String.Basic

/-!
# Values of JSON, and places in them

A mutable reference into a value is a cursor: the value that it points to, and what is around it.
-/

/-- A number is kept as its text, and the members of an object are sorted by their keys. -/
inductive Value
  | null
  | bool (b : Bool)
  | number (text : String)
  | string (s : String)
  | array (items : List Value)
  | object (members : List (String × Value))

namespace Value

/-- One of the objects around a place: its key, and the other members. -/
structure Frame where
  before : List (String × Value)
  key : String
  after : List (String × Value)
  first : ∀ m ∈ before, m.1 ≠ key

def Frame.plug (frame : Frame) (v : Value) : Value :=
  .object (frame.before ++ (frame.key, v) :: frame.after)

/-- The innermost frame comes first. -/
def plug (v : Value) : List Frame → Value
  | [] => v
  | frame :: frames => plug (frame.plug v) frames

structure Cursor where
  value : Value
  frames : List Frame

/-- The value that the reference points into. -/
def Cursor.document (c : Cursor) : Value := plug c.value c.frames

/-- A null is taken for an object without members. -/
def members : Value → Option (List (String × Value))
  | .null => some []
  | .object members => some members
  | _ => none

/-! ## Reading -/

def find (key : String) (members : List (String × Value)) : Value :=
  (members.find? (·.1 = key)).elim .null (·.2)

/-- What is not there is a null. -/
def get (key : String) (v : Value) : Value := v.members.elim .null (find key)

def getPath (v : Value) : List String → Value
  | [] => v
  | key :: path => (v.get key).getPath path

/-- Each value that is indexed along the path has members. -/
def Walkable (v : Value) : List String → Prop
  | [] => True
  | key :: path => v.members.isSome ∧ (v.get key).Walkable path

/-! ## Mutable references -/

/-- The entry of a map at a key. If it is missing it becomes a null, in the order of the keys. -/
def entryOrNull (key : String) (members : List (String × Value)) (frames : List Frame) : Cursor :=
  match members.dropWhile (·.1 ≠ key) with
  | (_, v) :: after =>
      ⟨v, ⟨members.takeWhile (·.1 ≠ key), key, after, fun m hm => by
        simpa using List.mem_takeWhile_imp hm⟩ :: frames⟩
  | [] =>
      ⟨.null, ⟨members.takeWhile (·.1 < key), key, members.dropWhile (·.1 < key), fun m hm heq => by
        have hlt : m.1 < key := by simpa using List.mem_takeWhile_imp hm
        exact String.lt_irrefl key (heq ▸ hlt)⟩ :: frames⟩

/-- `none` is a panic: the value has no members and is no null. -/
def Cursor.indexMut (key : String) (c : Cursor) : Option Cursor :=
  c.value.members.map fun members => entryOrNull key members c.frames

def Cursor.indexPath (c : Cursor) : List String → Option Cursor
  | [] => some c
  | key :: path => (c.indexMut key).bind fun c' => c'.indexPath path

def asArray : Value → Option (List Value)
  | .array items => some items
  | _ => none

/-- The array at the path has got more items, and nothing else has changed. -/
def ExtendedAt (path : List String) (more : List Value) (v v' : Value) : Prop :=
  ∃ frames items, (frames.map Frame.key).reverse = path ∧ v = plug (.array items) frames ∧
    v' = plug (.array (items ++ more)) frames

variable {key : String} {ms : List (String × Value)} {frames : List Frame} {frame : Frame}
  {path : List String} {v v' : Value} {c d : Cursor}

theorem asArray_eq_some {items : List Value} : v.asArray = some items ↔ v = .array items := by
  cases v <;> simp [asArray]

/-! ## What a frame keeps -/

@[simp] theorem get_plug : (frame.plug v).get frame.key = v := by
  have hbefore : frame.before.find? (·.1 = frame.key) = none := by
    rw [List.find?_eq_none]
    intro m hm
    simpa using frame.first m hm
  simp [Frame.plug, get, members, find, List.find?_append, hbefore]

theorem plug_append (inner outer : List Frame) :
    plug v (inner ++ outer) = plug (plug v inner) outer := by
  induction inner generalizing v with
  | nil => rfl
  | cons frame inner ih => exact ih

theorem getPath_append (p q : List String) : v.getPath (p ++ q) = (v.getPath p).getPath q := by
  induction p generalizing v with
  | nil => rfl
  | cons key p ih => exact ih

theorem getPath_plug : (plug v frames).getPath (frames.map Frame.key).reverse = v := by
  induction frames generalizing v with
  | nil => rfl
  | cons frame frames ih =>
      rw [plug, List.map_cons, List.reverse_cons, getPath_append, ih]
      exact get_plug

theorem ExtendedAt.getPath {more : List Value} (h : ExtendedAt path more v v') :
    ∃ items, v.getPath path = .array items ∧ v'.getPath path = .array (items ++ more) := by
  obtain ⟨frames, items, rfl, rfl, rfl⟩ := h
  exact ⟨items, getPath_plug, getPath_plug⟩

/-- The items that an array has got are the ones that were appended. -/
theorem ExtendedAt.unique {more more' : List Value} (h : ExtendedAt path more v v')
    (h' : ExtendedAt path more' v v') : more = more' := by
  obtain ⟨items, hget, hmore⟩ := h.getPath
  obtain ⟨items', hget', hmore'⟩ := h'.getPath
  cases hget.symm.trans hget'
  have hitems := hmore.symm.trans hmore'
  exact List.append_cancel_left (Value.array.inj hitems)

/-! ## What an index step does -/

/-- The entry has the value that reading finds. Unless that is a null, no member has been added. -/
theorem entryOrNull_spec (key : String) (ms : List (String × Value)) (frames : List Frame) :
    ∃ frame : Frame, frame.key = key ∧
      entryOrNull key ms frames = ⟨find key ms, frame :: frames⟩ ∧
      (find key ms ≠ .null → frame.plug (find key ms) = .object ms) := by
  have hfind : ms.find? (·.1 = key) = (ms.dropWhile (·.1 ≠ key)).head? := by
    simp only [List.find?_eq_head?_dropWhile_not, ne_eq, decide_not]
  have hsplit := List.takeWhile_append_dropWhile (p := (·.1 ≠ key)) (l := ms)
  unfold entryOrNull
  split
  · rename_i key' v after hdrop
    have hkey : key' = key := by
      have hhead := List.find?_some (hfind.trans (congrArg List.head? hdrop))
      simpa using hhead
    subst hkey
    have hv : find key' ms = v := by rw [find, hfind, hdrop]; rfl
    rw [hdrop] at hsplit
    refine ⟨_, rfl, by rw [hv], fun _ => ?_⟩
    rw [hv, Frame.plug, hsplit]
  · rename_i hdrop
    have hv : find key ms = .null := by rw [find, hfind, hdrop]; rfl
    exact ⟨_, rfl, by rw [hv], fun hne => absurd hv hne⟩

theorem indexMut_spec (h : c.indexMut key = some d) :
    ∃ frame : Frame, frame.key = key ∧ d = ⟨c.value.get key, frame :: c.frames⟩ ∧
      (c.value.get key ≠ .null → frame.plug (c.value.get key) = c.value) := by
  obtain ⟨ms, hms, rfl⟩ := Option.map_eq_some_iff.mp h
  have hget : c.value.get key = find key ms := by rw [get, hms, Option.elim_some]
  obtain ⟨frame, hkey, hentry, hplug⟩ := entryOrNull_spec key ms c.frames
  rw [hget]
  refine ⟨frame, hkey, hentry, fun hne => ?_⟩
  rw [hplug hne]
  cases hv : c.value with
  | object ms' =>
      rw [hv] at hms
      cases hms
      rfl
  | null =>
      rw [hv] at hms
      cases hms
      exact absurd rfl hne
  | bool | number | string | array => rw [hv] at hms; cases hms

theorem getPath_null : Value.null.getPath path = .null := by
  induction path with
  | nil => rfl
  | cons key path ih => exact ih

/-- A reference along a path points to the value that reading finds there. Unless that is a null,
the document is as it was. -/
theorem indexPath_spec (h : c.indexPath path = some d) :
    ∃ frames, (frames.map Frame.key).reverse = path ∧
      d = ⟨c.value.getPath path, frames ++ c.frames⟩ ∧
      (c.value.getPath path ≠ .null → plug (c.value.getPath path) frames = c.value) := by
  induction path generalizing c with
  | nil =>
      cases h
      exact ⟨[], rfl, rfl, fun _ => rfl⟩
  | cons key path ih =>
      obtain ⟨c', hc, hd⟩ := Option.bind_eq_some_iff.mp h
      obtain ⟨frame, rfl, rfl, hplug⟩ := indexMut_spec hc
      obtain ⟨frames, hpath, rfl, hframes⟩ := ih hd
      refine ⟨frames ++ [frame], ?_, ?_, fun hne => ?_⟩
      · simp [hpath]
      · simp [getPath]
      · have hfirst : c.value.get frame.key ≠ .null := by
          intro hnull
          rw [getPath, hnull] at hne
          exact hne getPath_null
        rw [plug_append, getPath, hframes hne]
        exact hplug hfirst

/-- Indexing along a path goes through exactly if every value on the way has members. -/
theorem indexPath_isSome : (c.indexPath path).isSome ↔ c.value.Walkable path := by
  induction path generalizing c with
  | nil => simp [Cursor.indexPath, Walkable]
  | cons key path ih =>
      cases hc : c.indexMut key with
      | none =>
          have hnone : c.value.members = none := by simpa [Cursor.indexMut] using hc
          simp [Cursor.indexPath, Walkable, hc, hnone]
      | some c' =>
          obtain ⟨ms, hms, _⟩ := Option.map_eq_some_iff.mp hc
          obtain ⟨frame, _, rfl, _⟩ := indexMut_spec hc
          simp [Cursor.indexPath, Walkable, hc, hms, ih]

/-- A reference along a path to an array that gets more items. -/
theorem extendedAt_indexPath {items more : List Value}
    (h : (Cursor.mk v []).indexPath path = some d) (hitems : d.value = .array items) :
    v.getPath path = .array items ∧
      ExtendedAt path more v { d with value := .array (items ++ more) : Cursor }.document := by
  obtain ⟨frames, hpath, rfl, hplug⟩ := indexPath_spec h
  have hget : v.getPath path = .array items := hitems
  refine ⟨hget, frames, items, hpath, ?_, ?_⟩
  · have hne : v.getPath path ≠ .null := by
      rw [hget]
      simp
    rw [← hget]
    exact (hplug hne).symm
  · rw [Cursor.document, List.append_nil]

end Value
