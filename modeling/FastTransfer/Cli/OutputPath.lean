import Mathlib.Data.Fintype.EquivFin
import FastTransfer.Lib.Paths
import FastTransfer.Cli.Protocol

/-!
# Where a received file is put

`cli/src/receiver.rs`: the output path is the output directory, a slash and the name
of the header, and is handed to `File::create` as it is. `cli/src/sender.rs` takes the
name from its own path with `Path::file_name`.

Paths are those of Unix. The file system has directories and files, without symbolic
links; no operation fails for its rights, its space or the length of a name.
-/

namespace FastTransfer.Cli

open Paths

/-! ## Paths -/

/-- What an entry of a directory can be called. -/
structure Name where
  chars : List Char
  ne_nil : chars ≠ []
  ne_dot : chars ≠ ['.']
  ne_dotdot : chars ≠ ['.', '.']
  slash_notMem : '/' ∉ chars
  nul_notMem : '\x00' ∉ chars
  deriving DecidableEq

/-- The text of a name. -/
def Name.toString (n : Name) : String := String.ofList n.chars

/-- One part of a path between slashes; `none` if it has a NUL. -/
def component (part : List Char) : Option (Component Name) :=
  if h : part = [] ∨ part = ['.'] then some .current
  else if h' : part = ['.', '.'] then some .parent
  else if h'' : '/' ∉ part ∧ '\x00' ∉ part then
    some (.name ⟨part, mt .inl h, mt .inr h, h', h''.1, h''.2⟩)
  else none

/-- The parts of a path between its slashes; no system call takes a path with a NUL. -/
def components (path : String) : Option (List (Component Name)) :=
  (path.toList.splitOn '/').mapM component

/-- `Path::file_name`: the last component, if it is a name. -/
def fileName (path : String) : Option Name :=
  (components path).bind fun cs =>
    match (cs.filter (· ≠ .current)).getLast? with
    | some (.name n) => some n
    | some .current | some .parent | none => none

/-- Where a path starts: at the root if it begins with a slash. -/
def origin (path : String) : Spot Name :=
  if path.toList.head? = some '/' then .root else .here

/-! ## Files -/

/-- The directories and files, and the current directory. -/
structure FileSystem extends FileTree Name Bytes where
  cwd : List Name
  isDir_cwd : isDir cwd = true

namespace FileSystem

/-- The directory at which a path starts. -/
def start (fs : FileSystem) (path : String) : List Name := (origin path).place fs.cwd

/-- The directory at a path; the empty path has none. -/
def directory (fs : FileSystem) (path : String) : Option (List Name) :=
  if path = "" then none else (components path).bind fun cs => fs.walk (fs.start path) cs

/-- `Path::exists`: a directory or a file is at the path. -/
def pathExists (fs : FileSystem) (path : String) : Bool :=
  (fs.directory path).isSome ||
    match components path with
    | none => false
    | some cs =>
        match cs.getLast? with
        | some (.name n) =>
            (fs.walk (fs.start path) cs.dropLast).any fun q => (fs.content (q ++ [n])).isSome
        | some .current | some .parent | none => false

/-- `File::create`: the file that it makes, or truncates. -/
def create (fs : FileSystem) (path : String) : Option fs.Entry :=
  (components path).bind fun cs => fs.toFileTree.create (fs.start path) cs

/-- Write a file. -/
def put (fs : FileSystem) (x : fs.Entry) (b : Bytes) : FileSystem :=
  { fs with toFileTree := fs.toFileTree.put x b }

end FileSystem

/-- The name in the header of `send_file`; `none` if the path is not there or has no file name. -/
def sendFileName (fs : FileSystem) (path : String) : Option String :=
  if fs.pathExists path then (fileName path).map Name.toString else none

/-- `output_dir/name`, where the file is created. -/
def outputPath (outputDir name : String) : String := outputDir ++ "/" ++ name

/-- `i64::MAX`, the longest that `set_len` makes a file. -/
def i64Max : Nat := 2 ^ 63 - 1

/-- The new file after `set_len`; where that fails, the file stays empty. -/
def setLen (size : Nat) : Bytes := if size ≤ i64Max then List.replicate size 0 else []

/-- The output file of `receive_file`, and the file system with it. -/
def createOutput (fs : FileSystem) (outputDir : String) (header : FileHeader) :
    Option (fs.Entry × FileSystem) :=
  (fs.create (outputPath outputDir header.name)).map fun x => (x, fs.put x (setLen header.size))

/-! ## Staying inside -/

/-- If the output file is created, it is directly inside the output directory. An
empty `output_dir` is the path of no directory, and counts as staying inside,
although `receive_file` then creates `/name`. -/
def StaysInside (fs : FileSystem) (outputDir : String) (header : FileHeader) : Prop :=
  ∀ d, fs.directory outputDir = some d → ∀ x fs', createOutput fs outputDir header = some (x, fs') →
    ∃ n, x.place = d ++ [n]

/-- By their components, the name leads away from the output directory; from an empty
`output_dir`, which is no directory, no name does. -/
def Escapes (outputDir name : String) : Prop :=
  outputDir ≠ "" ∧ ∃ cs ∈ components outputDir, ∃ cs' ∈ components name,
    (origin outputDir).LeadsAway cs cs'

instance (outputDir name : String) : Decidable (Escapes outputDir name) :=
  inferInstanceAs (Decidable (_ ∧ _))

/-! ## Components -/

section Components

variable {path outputDir name : String} {cs : List (Component Name)}

theorem component_chars (n : Name) : component n.chars = some (.name n) := by
  unfold component
  rw [dif_neg (not_or.mpr ⟨n.ne_nil, n.ne_dot⟩), dif_neg n.ne_dotdot,
    dif_pos ⟨n.slash_notMem, n.nul_notMem⟩]

/-- A name is its only component. -/
theorem components_toString (n : Name) : components n.toString = some [.name n] := by
  rw [components, Name.toString, String.toList_ofList, List.splitOn_eq_singleton n.slash_notMem,
    List.mapM_cons, component_chars]
  rfl

theorem components_ne_nil (h : components path = some cs) : cs ≠ [] := by
  unfold components at h
  cases hsplit : path.toList.splitOn '/' with
  | nil => exact absurd hsplit (List.splitOn_ne_nil _ _)
  | cons part parts =>
      rw [hsplit, List.mapM_cons] at h
      obtain ⟨c, -, h⟩ := Option.bind_eq_some_iff.mp h
      obtain ⟨rest, -, h⟩ := Option.bind_eq_some_iff.mp h
      obtain rfl := Option.some.inj h
      exact List.cons_ne_nil c rest

theorem components_outputPath (name : String) (h : components outputDir = some cs) :
    components (outputPath outputDir name) = (components name).map (cs ++ ·) := by
  have hsplit : (outputPath outputDir name).toList.splitOn '/' =
      outputDir.toList.splitOn '/' ++ name.toList.splitOn '/' := by
    rw [outputPath, String.toList_append, String.toList_append, List.append_assoc]
    exact List.splitOn_append_cons_self _ _
  unfold components at h ⊢
  rw [hsplit, List.mapM_append, h]
  cases (name.toList.splitOn '/').mapM component <;> rfl

theorem origin_outputPath (name : String) (h : outputDir ≠ "") :
    origin (outputPath outputDir name) = origin outputDir := by
  have hne : outputDir.toList ≠ [] := by simpa using h
  rw [origin, outputPath, String.toList_append, String.toList_append, List.append_assoc,
    List.head?_append_of_ne_nil _ hne, origin]

theorem origin_down (path : String) : (origin path).down = [] := by
  unfold origin
  split_ifs <;> rfl

end Components

/-! ## The output file -/

section CreateOutput

variable {fs fs' : FileSystem} {outputDir : String} {header : FileHeader} {d : List Name}
  {cs : List (Component Name)} {x : fs.Entry}

theorem isDir_start (fs : FileSystem) (path : String) : fs.isDir (fs.start path) = true := by
  unfold FileSystem.start origin
  split_ifs
  · exact fs.root_isDir
  · show fs.isDir (fs.cwd ++ []) = true
    rw [List.append_nil]
    exact fs.isDir_cwd

theorem directory_eq_some (h : fs.directory outputDir = some d) :
    outputDir ≠ "" ∧ ∃ cs, components outputDir = some cs ∧
      fs.walk (fs.start outputDir) cs = some d := by
  obtain ⟨hne, h⟩ := Option.ite_none_left_eq_some.mp h
  exact ⟨hne, Option.bind_eq_some_iff.mp h⟩

/-- The output path leads through the output directory and on along the name. -/
theorem create_outputPath (name : String) (hne : outputDir ≠ "")
    (hcs : components outputDir = some cs) :
    fs.create (outputPath outputDir name) =
      (components name).bind fun cs' => fs.toFileTree.create (fs.start outputDir) (cs ++ cs') := by
  rw [FileSystem.create, components_outputPath name hcs, Option.bind_map, FileSystem.start,
    origin_outputPath name hne]
  rfl

theorem createOutput_eq_some (h : createOutput fs outputDir header = some (x, fs')) :
    fs.create (outputPath outputDir header.name) = some x ∧
      fs' = fs.put x (setLen header.size) := by
  obtain ⟨y, hy, h⟩ := Option.map_eq_some_iff.mp h
  obtain ⟨rfl, rfl⟩ := Prod.mk.inj h
  exact ⟨hy, rfl⟩

/-- Only the output file is written. -/
theorem createOutput_content (h : createOutput fs outputDir header = some (x, fs'))
    (q : List Name) :
    fs'.content q = if q = x.place then some (setLen header.size) else fs.content q := by
  obtain ⟨-, rfl⟩ := createOutput_eq_some h
  exact Function.update_apply fs.content x.place _ q

/-- **The output file of a plain name** is the entry of the output directory with that name. -/
theorem place_of_name {n : Name} (hname : header.name = n.toString)
    (hd : fs.directory outputDir = some d) (h : createOutput fs outputDir header = some (x, fs')) :
    x.place = d ++ [n] := by
  obtain ⟨hne, cs, hcs, hwalk⟩ := directory_eq_some hd
  obtain ⟨hx, -⟩ := createOutput_eq_some h
  rw [create_outputPath _ hne hcs, hname, components_toString, Option.bind_some] at hx
  obtain ⟨init, hinit, hdir⟩ := FileTree.create_eq_some hx
  obtain ⟨rfl, hlast⟩ := List.append_inj' hinit rfl
  obtain rfl := Component.name.inj (List.singleton_inj.mp hlast)
  rw [hwalk] at hdir
  rw [FileTree.Entry.place, Option.some.inj hdir]

/-- It is made there, unless a directory of that name is there. -/
theorem createOutput_of_name {n : Name} (hname : header.name = n.toString)
    (hd : fs.directory outputDir = some d) (hn : fs.isDir (d ++ [n]) = false) :
    ∃ x fs', createOutput fs outputDir header = some (x, fs') := by
  obtain ⟨hne, cs, hcs, hwalk⟩ := directory_eq_some hd
  have hdir : fs.isDir d = true := FileTree.isDir_walk (isDir_start fs outputDir) hwalk
  rw [createOutput, create_outputPath _ hne hcs, hname, components_toString, Option.bind_some,
    FileTree.create_concat, hwalk, Option.bind_some, dif_pos ⟨hdir, hn⟩]
  exact ⟨_, _, rfl⟩

theorem sendFileName_eq_some {path name : String} (h : sendFileName fs path = some name) :
    ∃ n : Name, name = n.toString := by
  obtain ⟨-, h⟩ := Option.ite_none_right_eq_some.mp h
  obtain ⟨n, -, h⟩ := Option.map_eq_some_iff.mp h
  exact ⟨n, h.symm⟩

theorem staysInside_of_not_escapes (h : ¬ Escapes outputDir header.name) (fs : FileSystem) :
    StaysInside fs outputDir header := by
  intro d hd x fs' hx
  obtain ⟨hne, cs, hcs, hwalk⟩ := directory_eq_some hd
  obtain ⟨hx, -⟩ := createOutput_eq_some hx
  rw [create_outputPath _ hne hcs] at hx
  obtain ⟨cs', hcs', hx⟩ := Option.bind_eq_some_iff.mp hx
  have haway : ¬ (origin outputDir).LeadsAway cs cs' := fun haway =>
    h ⟨hne, cs, hcs, cs', hcs', haway⟩
  have hdir := Spot.dir_eq_of_not_leadsAway haway (isDir_start fs outputDir) hwalk hx
  exact ⟨x.name, by rw [FileTree.Entry.place, hdir]⟩

/-- Names `a`, `aa`, and so on. -/
instance : Infinite Name :=
  Infinite.of_injective
    (fun k => {
      chars := List.replicate (k + 1) 'a'
      ne_nil := List.cons_ne_nil _ _
      ne_dot := fun h => absurd (List.head_eq_of_cons_eq h) (by decide)
      ne_dotdot := fun h => absurd (List.head_eq_of_cons_eq h) (by decide)
      slash_notMem := fun h => absurd (List.eq_of_mem_replicate h) (by decide)
      nul_notMem := fun h => absurd (List.eq_of_mem_replicate h) (by decide) : Name })
    fun j k h => by simpa using congrArg (fun n => n.chars.length) h

theorem Escapes.exists_outside (h : Escapes outputDir header.name) :
    ∃ fs, ¬ StaysInside fs outputDir header := by
  obtain ⟨hne, cs, hcs, cs', hcs', haway⟩ := h
  obtain ⟨t, p, d, x, hp, hwalk, hx, hdir⟩ :=
    haway.exists_create (origin_down outputDir) (components_ne_nil hcs')
  let fs : FileSystem := { toFileTree := t, cwd := p, isDir_cwd := hp }
  have hd : fs.directory outputDir = some d := by
    rw [FileSystem.directory, if_neg hne, hcs]
    exact hwalk
  have hcreate : fs.create (outputPath outputDir header.name) = some x := by
    rw [create_outputPath _ hne hcs, hcs']
    exact hx
  use fs
  intro hstays
  obtain ⟨n, hplace⟩ := hstays d hd x _ (by rw [createOutput, hcreate, Option.map_some])
  exact hdir (List.append_inj_left' hplace rfl)

/-- **When a received file stays in the output directory**: in every file system exactly if the
name does not lead away from it, and always if `send_file` gave the name. -/
theorem staysInside_iff (outputDir : String) (header : FileHeader) :
    ((∀ fs, StaysInside fs outputDir header) ↔ ¬ Escapes outputDir header.name) ∧
      ∀ sender path, sendFileName sender path = some header.name →
        ∀ fs d, fs.directory outputDir = some d →
          ∀ x fs', createOutput fs outputDir header = some (x, fs') →
            ∃ n, header.name = Name.toString n ∧ x.place = d ++ [n] := by
  constructor
  · constructor
    · intro hall hesc
      obtain ⟨fs, hfs⟩ := hesc.exists_outside
      exact hfs (hall fs)
    · exact staysInside_of_not_escapes
  · intro sender path hname fs d hd x fs' hx
    obtain ⟨n, hn⟩ := sendFileName_eq_some hname
    exact ⟨n, hn, place_of_name hn hd hx⟩

example : Escapes "." "../x" ∧ Escapes "." "/etc/passwd" ∧ ¬ Escapes "." "a/../x" := by decide

/-! ### A name that climbs -/

def homeDir : Name where
  chars := ['h', 'o', 'm', 'e']
  ne_nil := by decide
  ne_dot := by decide
  ne_dotdot := by decide
  slash_notMem := by decide
  nul_notMem := by decide

/-- Two empty directories, of which the receiver runs in the inner one. -/
def atHome : FileSystem where
  isDir p := p = [] ∨ p = [homeDir]
  content _ := none
  root_isDir := by decide
  isDir_parent p n h := by
    rcases of_decide_eq_true h with h | h
    · exact absurd h (List.concat_ne_nil n p)
    · exact decide_eq_true (.inl (List.append_inj_left' h rfl : p = []))
  file_parent _ _ h := Bool.noConfusion h
  isDir_of_file _ h := Bool.noConfusion h
  cwd := [homeDir]
  isDir_cwd := by decide

def climbing : FileHeader where
  name := "../x"
  size := 1
  totalChunks := 1
  numStreams := numStreams
  chunkSize := chunkSize
  checksum := ""

/-- The file is created next to the output directory. -/
theorem not_staysInside_climbing :
    ¬ ∀ (fs : FileSystem) (outputDir : String) (header : FileHeader),
      StaysInside fs outputDir header := by
  intro h
  have hd : atHome.directory "." = some [homeDir] := by decide
  have hsome : (atHome.create (outputPath "." climbing.name)).isSome := by decide
  have hdir : ∀ x ∈ atHome.create (outputPath "." climbing.name), x.dir = [] := by decide
  obtain ⟨x, hx⟩ := Option.isSome_iff_exists.mp hsome
  obtain ⟨n, hplace⟩ := h atHome "." climbing _ hd x _ (by rw [createOutput, hx, Option.map_some])
  rw [FileTree.Entry.place, hdir x hx] at hplace
  exact absurd (congrArg List.length hplace) (by simp)

end CreateOutput

end FastTransfer.Cli
