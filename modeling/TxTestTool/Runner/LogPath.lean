import Mathlib.Data.List.TakeWhile
import Mathlib.Logic.Function.Basic
import TxTestTool.Codec.Decimal

/-!
# Where a runner saves its journal

The path is made of some of the settings only: the file name prefix is used with a directory, the
executor id without a prefix.
-/

namespace TxTestTool.Runner

structure LogSettings where
  executorId : Option String
  baseDirPath : Option String
  logFileName : Option String
deriving DecidableEq, Repr

/-- Local time to the second. -/
structure DateTime where
  year : Nat
  month : Nat
  day : Nat
  hour : Nat
  minute : Nat
  second : Nat
deriving DecidableEq, Repr

namespace DateTime

/-- A number with leading zeros up to a width. -/
def pad (w n : Nat) : String :=
  String.ofList (List.replicate (w - (Nat.toDigits 10 n).length) '0') ++ n.repr

/-- `%Y%m%d_%H%M%S` -/
def formatted (t : DateTime) : String :=
  pad 4 t.year ++ pad 2 t.month ++ pad 2 t.day ++ "_" ++ pad 2 t.hour ++ pad 2 t.minute ++
    pad 2 t.second

theorem formatted_last (t : DateTime) :
    ∃ last, t.formatted.toList.getLast? = some last ∧ last.isDigit = true := by
  have hne : Nat.toDigits 10 t.second ≠ [] := Nat.toDigits_ne_nil
  refine ⟨(Nat.toDigits 10 t.second).getLast hne, ?_,
    Decimal.isDigit_toDigits (List.getLast_mem hne)⟩
  simp only [formatted, pad, String.toList_append, Nat.toList_repr, List.getLast?_append,
    List.getLast?_eq_some_getLast hne, Option.some_or]

end DateTime

def defaultFileName (t : DateTime) (c : LogSettings) : String :=
  match c.executorId with
  | some id => "ttxt_" ++ id ++ "_" ++ t.formatted ++ ".json"
  | none => "ttxt_" ++ t.formatted ++ ".json"

def logFilePath (t : DateTime) (c : LogSettings) : String :=
  match c.baseDirPath with
  | some basedir =>
      match c.logFileName with
      | some filename => basedir ++ "/" ++ filename ++ "_" ++ t.formatted
      | none => basedir ++ "/" ++ defaultFileName t c
  | none => defaultFileName t c

/-! ## The file of a path -/

/-- The directory and the name of a path, cut at the last slash. -/
def splitPath (path : String) : Option String × String :=
  let name := path.toList.reverse.takeWhile (· != '/')
  match path.toList.reverse.dropWhile (· != '/') with
  | [] => (none, path)
  | _ :: dir => (some (String.ofList dir.reverse), String.ofList name.reverse)

/-- `resolve` says which directory a path of one is; without one it is the working directory. -/
def fileOf {D : Type*} (resolve : Option String → D) (path : String) : D × String :=
  (resolve (splitPath path).1, (splitPath path).2)

theorem no_slash {name : String} (h : '/' ∉ name.toList) :
    ∀ c ∈ name.toList.reverse, (c != '/') = true := by
  intro c hc
  rw [bne_iff_ne]
  rintro rfl
  exact h (List.mem_reverse.mp hc)

theorem splitPath_name {name : String} (h : '/' ∉ name.toList) : splitPath name = (none, name) := by
  have hend : name.toList.reverse.dropWhile (· != '/') = [] :=
    List.dropWhile_eq_nil_iff.mpr (no_slash h)
  simp only [splitPath, hend]

theorem splitPath_append {name : String} (dir : String) (h : '/' ∉ name.toList) :
    splitPath (dir ++ "/" ++ name) = (some dir, name) := by
  have hpath : (dir ++ "/" ++ name).toList.reverse =
      name.toList.reverse ++ '/' :: dir.toList.reverse := by
    simp [String.toList_append]
  have hname : (dir ++ "/" ++ name).toList.reverse.takeWhile (· != '/') = name.toList.reverse := by
    rw [hpath, List.takeWhile_append_of_pos (no_slash h)]
    simp
  have hdir : (dir ++ "/" ++ name).toList.reverse.dropWhile (· != '/') =
      '/' :: dir.toList.reverse := by
    rw [hpath, List.dropWhile_append_of_pos (no_slash h)]
    simp
  simp only [splitPath, hname, hdir, List.reverse_reverse, String.ofList_toList]

/-! ## Which settings are used -/

namespace LogSettings

/-- A prefix and an executor id are single components of a path. -/
structure Valid (c : LogSettings) : Prop where
  executorId : ∀ id ∈ c.executorId, '/' ∉ id.toList
  logFileName : ∀ name ∈ c.logFileName, '/' ∉ name.toList

/-- What the name of the file is made of. -/
def used (c : LogSettings) : String ⊕ Option String :=
  match c.baseDirPath, c.logFileName with
  | some _, some filename => .inl filename
  | _, _ => .inr c.executorId

/-- The settings differ in the directory, the file name or the executor id. -/
def Differ {D : Type*} (resolve : Option String → D) (c₁ c₂ : LogSettings) : Prop :=
  resolve c₁.baseDirPath ≠ resolve c₂.baseDirPath ∨ c₁.logFileName ≠ c₂.logFileName ∨
    c₁.executorId ≠ c₂.executorId

end LogSettings

def fileName (t : DateTime) : String ⊕ Option String → String
  | .inl filename => filename ++ "_" ++ t.formatted
  | .inr (some id) => "ttxt_" ++ id ++ "_" ++ t.formatted ++ ".json"
  | .inr none => "ttxt_" ++ t.formatted ++ ".json"

variable {t : DateTime} {c c₁ c₂ : LogSettings}

theorem logFilePath_eq (t : DateTime) (c : LogSettings) : logFilePath t c =
    match c.baseDirPath with
    | some basedir => basedir ++ "/" ++ fileName t c.used
    | none => fileName t c.used := by
  obtain ⟨executorId, baseDirPath, logFileName⟩ := c
  cases baseDirPath <;> cases logFileName <;> cases executorId <;>
    simp [logFilePath, defaultFileName, LogSettings.used, fileName, String.append_assoc]

theorem fileName_kinds (t : DateTime) (s s' : String) : s ++ t.formatted ≠ s' ++ ".json" := by
  intro h
  obtain ⟨last, hlast, hdigit⟩ := t.formatted_last
  have hend := congrArg (fun s : String => s.toList.getLast?) h
  simp only [String.toList_append, List.getLast?_append, hlast, Option.some_or] at hend
  have hn : last = 'n' := by simpa using hend
  rw [hn] at hdigit
  cases hdigit

theorem fileName_injective (t : DateTime) : Function.Injective (fileName t) := by
  have hid : ∀ id, fileName t (.inr none) ≠ fileName t (.inr (some id)) := by
    intro id h
    have hlength := congrArg String.length h
    simp only [fileName, String.length_append] at hlength
    have hunder : "_".length = 1 := rfl
    omega
  intro u v h
  rcases u with filename | (_ | id) <;> rcases v with filename' | (_ | id')
  · have hname : filename = filename' := by simpa [fileName] using h
    rw [hname]
  · exact absurd h (fileName_kinds t _ _)
  · exact absurd h (fileName_kinds t _ _)
  · exact absurd h.symm (fileName_kinds t _ _)
  · rfl
  · exact absurd h (hid id')
  · exact absurd h.symm (fileName_kinds t _ _)
  · exact absurd h.symm (hid id)
  · have hname : id = id' := by simpa [fileName] using h
    rw [hname]

theorem pad_no_slash (w n : Nat) : '/' ∉ (DateTime.pad w n).toList := by
  intro h
  rw [DateTime.pad, String.toList_append, String.toList_ofList, Nat.toList_repr,
    List.mem_append] at h
  rcases h with h | h
  · cases List.eq_of_mem_replicate h
  · cases Decimal.isDigit_toDigits h

theorem formatted_no_slash (t : DateTime) : '/' ∉ t.formatted.toList := by
  simp [DateTime.formatted, String.toList_append, pad_no_slash]

theorem LogSettings.Valid.fileName (h : c.Valid) : '/' ∉ (fileName t c.used).toList := by
  have hdate := formatted_no_slash t
  unfold LogSettings.used
  split
  · rename_i filename _ hname
    simp [Runner.fileName, String.toList_append, hdate, h.logFileName filename hname]
  · cases hid : c.executorId with
    | none => simp [Runner.fileName, String.toList_append, hdate]
    | some id => simp [Runner.fileName, String.toList_append, hdate, h.executorId id hid]

theorem fileOf_logFilePath {D : Type*} (resolve : Option String → D) (h : c.Valid) :
    fileOf resolve (logFilePath t c) = (resolve c.baseDirPath, fileName t c.used) := by
  rw [logFilePath_eq, fileOf]
  cases c.baseDirPath with
  | none => simp only [splitPath_name h.fileName]
  | some basedir => simp only [splitPath_append basedir h.fileName]

/-! ## Journals that overwrite each other -/

section

variable {D : Type*} [DecidableEq D]

/-- `File::create` truncates a file that exists. -/
def saveTo (files : D × String → Option String) (file : D × String) (text : String) :
    D × String → Option String :=
  Function.update files file (some text)

/-- The journal of the first runner is still there after the second has saved its own. -/
def Kept (resolve : Option String → D) (t : DateTime) (c₁ c₂ : LogSettings) : Prop :=
  ∀ files text₁ text₂,
    saveTo (saveTo files (fileOf resolve (logFilePath t c₁)) text₁)
      (fileOf resolve (logFilePath t c₂)) text₂ (fileOf resolve (logFilePath t c₁)) = some text₁

theorem kept_iff {resolve : Option String → D} : Kept resolve t c₁ c₂ ↔
    fileOf resolve (logFilePath t c₁) ≠ fileOf resolve (logFilePath t c₂) := by
  constructor
  · intro h heq
    have htext := h (fun _ => none) "first" "second"
    rw [heq, saveTo, Function.update_self] at htext
    simp at htext
  · intro hne files text₁ text₂
    rw [saveTo, Function.update_of_ne hne, saveTo, Function.update_self]

/-- Two runners whose settings differ keep their journals apart exactly if the directories differ
or those settings that the name of the file is made of. -/
theorem journals_apart_iff (resolve : Option String → D) (t : DateTime) (h₁ : c₁.Valid)
    (h₂ : c₂.Valid) :
    (LogSettings.Differ resolve c₁ c₂ →
      fileOf resolve (logFilePath t c₁) ≠ fileOf resolve (logFilePath t c₂) ∧
        Kept resolve t c₁ c₂) ↔
    (LogSettings.Differ resolve c₁ c₂ →
      resolve c₁.baseDirPath ≠ resolve c₂.baseDirPath ∨ c₁.used ≠ c₂.used) := by
  have hfiles : fileOf resolve (logFilePath t c₁) ≠ fileOf resolve (logFilePath t c₂) ↔
      resolve c₁.baseDirPath ≠ resolve c₂.baseDirPath ∨ c₁.used ≠ c₂.used := by
    rw [fileOf_logFilePath resolve h₁, fileOf_logFilePath resolve h₂, ne_eq, Prod.mk.injEq,
      (fileName_injective t).eq_iff, not_and_or]
  rw [kept_iff, and_self, hfiles]

end

def runnerOf (id : String) : LogSettings where
  executorId := some id
  baseDirPath := some "/var/log"
  logFileName := none

/-- Without a prefix the executor ids keep them apart. -/
theorem journals_apart_ids : Kept id ⟨2025, 1, 31, 12, 0, 0⟩ (runnerOf "a") (runnerOf "b") := by
  have hvalid : ∀ name : String, '/' ∉ name.toList → (runnerOf name).Valid := by
    intro name hname
    constructor
    · rintro _ ⟨⟩
      exact hname
    · rintro _ ⟨⟩
  have hdiffer : LogSettings.Differ id (runnerOf "a") (runnerOf "b") := by
    refine Or.inr (Or.inr ?_)
    decide
  have hused : (runnerOf "a").used ≠ (runnerOf "b").used := by decide
  exact ((journals_apart_iff id _ (hvalid "a" (by decide)) (hvalid "b" (by decide))).mpr
    (fun _ => Or.inr hused) hdiffer).2

def runnerNamed (id : String) : LogSettings where
  executorId := some id
  baseDirPath := some "/var/log"
  logFileName := some "run"

/-- With a directory and a prefix the executor id is not used. -/
theorem executor_id_ignored :
    ¬ (∀ (t : DateTime) (c₁ c₂ : LogSettings), c₁.Valid → c₂.Valid →
      LogSettings.Differ id c₁ c₂ →
        fileOf id (logFilePath t c₁) ≠ fileOf id (logFilePath t c₂) ∧ Kept id t c₁ c₂) := by
  intro h
  have hvalid : ∀ name : String, '/' ∉ name.toList → (runnerNamed name).Valid := by
    intro name hname
    constructor
    · rintro _ ⟨⟩
      exact hname
    · rintro _ ⟨⟩
      decide
  have hdiffer : LogSettings.Differ id (runnerNamed "a") (runnerNamed "b") := by
    refine Or.inr (Or.inr ?_)
    decide
  exact (h ⟨2025, 1, 31, 12, 0, 0⟩ _ _ (hvalid "a" (by decide)) (hvalid "b" (by decide))
    hdiffer).1 rfl

end TxTestTool.Runner
