import Mathlib.Data.List.Infix
import Mathlib.Data.Set.Finite.Basic
import Mathlib.Logic.Function.Basic

/-!
# Paths in a tree of directories

A place is the list of names that leads to it from the root. A path is a list of
components; it is followed from one directory to the next, and the file that it
names may be created in the last of them.

A `Spot` says where a path leads by its components alone: so many levels up, then
down these names. Every tree agrees with it, and a path can create a file in some
tree exactly if its spots allow it.
-/

namespace Paths

variable {ν β : Type*}

/-- A component of a path. -/
inductive Component (ν : Type*) where
  | current
  | parent
  | name (n : ν)
  deriving DecidableEq

/-- Directories and files by their places; a place is the names on the way from the root. -/
structure FileTree (ν β : Type*) where
  isDir : List ν → Bool
  content : List ν → Option β
  root_isDir : isDir [] = true
  isDir_parent : ∀ p n, isDir (p ++ [n]) = true → isDir p = true
  file_parent : ∀ p n, (content (p ++ [n])).isSome = true → isDir p = true
  isDir_of_file : ∀ p, (content p).isSome = true → isDir p = false

namespace FileTree

/-- A name in a directory that is not itself a directory. -/
structure Entry (t : FileTree ν β) where
  dir : List ν
  name : ν
  isDir_dir : t.isDir dir = true
  isDir_name : t.isDir (dir ++ [name]) = false

/-- Where the entry is. -/
def Entry.place {t : FileTree ν β} (x : t.Entry) : List ν := x.dir ++ [x.name]

/-- A file is made, or replaced. -/
def put [DecidableEq ν] (t : FileTree ν β) (x : t.Entry) (b : β) : FileTree ν β where
  isDir := t.isDir
  content := Function.update t.content x.place (some b)
  root_isDir := t.root_isDir
  isDir_parent := t.isDir_parent
  file_parent p n h := by
    by_cases hp : p ++ [n] = x.place
    · obtain ⟨rfl, -⟩ := List.append_inj' hp rfl
      exact x.isDir_dir
    · rw [Function.update_of_ne hp] at h
      exact t.file_parent p n h
  isDir_of_file p h := by
    by_cases hp : p = x.place
    · rw [hp]
      exact x.isDir_name
    · rw [Function.update_of_ne hp] at h
      exact t.isDir_of_file p h

/-- The root is its own parent. -/
def enter (t : FileTree ν β) (p : List ν) : Component ν → Option (List ν)
  | .current => some p
  | .parent => some p.dropLast
  | .name n => if t.isDir (p ++ [n]) then some (p ++ [n]) else none

/-- Follow a path from a directory to a directory. -/
def walk (t : FileTree ν β) : List ν → List (Component ν) → Option (List ν)
  | p, [] => some p
  | p, c :: cs => (t.enter p c).bind fun q => t.walk q cs

/-- Where a path creates a file: it has to end in a name, which no directory has. -/
def create (t : FileTree ν β) (p : List ν) (cs : List (Component ν)) : Option t.Entry :=
  match cs.getLast? with
  | some (.name n) =>
      (t.walk p cs.dropLast).bind fun q =>
        if h : t.isDir q = true ∧ t.isDir (q ++ [n]) = false then some ⟨q, n, h.1, h.2⟩ else none
  | some .current | some .parent | none => none

section Walk

variable {t : FileTree ν β} {p q : List ν} {cs cs' : List (Component ν)} {c : Component ν} {n : ν}

theorem walk_append (t : FileTree ν β) (p : List ν) (cs cs' : List (Component ν)) :
    t.walk p (cs ++ cs') = (t.walk p cs).bind fun q => t.walk q cs' := by
  induction cs generalizing p with
  | nil => rfl
  | cons c cs ih =>
      rw [List.cons_append, walk, walk]
      cases t.enter p c with
      | none => rfl
      | some q => exact ih q

theorem isDir_dropLast (h : t.isDir p = true) : t.isDir p.dropLast = true := by
  induction p using List.reverseRecOn with
  | nil => exact h
  | append_singleton p n =>
      rw [List.dropLast_concat]
      exact t.isDir_parent p n h

theorem isDir_enter (hp : t.isDir p = true) (h : t.enter p c = some q) : t.isDir q = true := by
  cases c with
  | current =>
      obtain rfl := Option.some.inj h
      exact hp
  | parent =>
      obtain rfl := Option.some.inj h
      exact isDir_dropLast hp
  | name n =>
      obtain ⟨hn, h⟩ := Option.ite_none_right_eq_some.mp h
      obtain rfl := Option.some.inj h
      exact hn

/-- **A path leads from directories to directories.** -/
theorem isDir_walk (hp : t.isDir p = true) (h : t.walk p cs = some q) : t.isDir q = true := by
  induction cs generalizing p with
  | nil =>
      obtain rfl := Option.some.inj h
      exact hp
  | cons c cs ih =>
      obtain ⟨r, hr, hrest⟩ := Option.bind_eq_some_iff.mp h
      exact ih (isDir_enter hp hr) hrest

theorem create_concat (t : FileTree ν β) (p : List ν) (cs : List (Component ν)) (n : ν) :
    t.create p (cs ++ [.name n]) =
      (t.walk p cs).bind fun q =>
        if h : t.isDir q = true ∧ t.isDir (q ++ [n]) = false then some ⟨q, n, h.1, h.2⟩
        else none := by
  rw [create, List.getLast?_concat, List.dropLast_concat]

/-- A path that creates a file. -/
theorem create_eq_some {x : t.Entry} (h : t.create p cs = some x) :
    ∃ init, cs = init ++ [.name x.name] ∧ t.walk p init = some x.dir := by
  induction cs using List.reverseRecOn with
  | nil => cases h
  | append_singleton cs c =>
      cases c with
      | current | parent =>
          rw [create, List.getLast?_concat] at h
          cases h
      | name n =>
          rw [create_concat] at h
          obtain ⟨q, hq, h⟩ := Option.bind_eq_some_iff.mp h
          split_ifs at h
          obtain rfl := Option.some.inj h
          exact ⟨cs, rfl, hq⟩

theorem isDir_of_isPrefix {pre : List (Component ν)} (hp : t.isDir p = true)
    (h : t.walk p cs = some q) (hpre : pre <+: cs) :
    ∃ r, t.walk p pre = some r ∧ t.isDir r = true := by
  obtain ⟨rest, rfl⟩ := hpre
  rw [walk_append] at h
  obtain ⟨r, hr, -⟩ := Option.bind_eq_some_iff.mp h
  exact ⟨r, hr, isDir_walk hp hr⟩

end Walk

/-- A tree without files: everything is a directory but what is at or below one place. -/
def without [DecidableEq ν] (target : List ν) (h : target ≠ []) : FileTree ν β where
  isDir p := !decide (target <+: p)
  content _ := none
  root_isDir := by
    rw [decide_eq_false (mt List.prefix_nil.mp h)]
    rfl
  isDir_parent p n hp := by
    rw [Bool.not_eq_true', decide_eq_false_iff_not] at hp ⊢
    exact fun hpre => hp (hpre.trans (List.prefix_append p [n]))
  file_parent _ _ h := Bool.noConfusion h
  isDir_of_file _ h := Bool.noConfusion h

theorem without_isDir [DecidableEq ν] {target p : List ν} (h : target ≠ []) :
    (without target h : FileTree ν β).isDir p = true ↔ ¬ target <+: p := by
  rw [without, Bool.not_eq_true', decide_eq_false_iff_not]

end FileTree

/-! ## Where a path leads -/

/-- From the root, or so many levels up from where the path starts; then down. -/
@[ext]
structure Spot (ν : Type*) where
  up : Option Nat
  down : List ν
  deriving DecidableEq

namespace Spot

/-- The root of the tree. -/
def root : Spot ν := ⟨none, []⟩

/-- Where the path starts. -/
def here : Spot ν := ⟨some 0, []⟩

/-- The spot after one more component. -/
def enter (s : Spot ν) : Component ν → Spot ν
  | .current => s
  | .parent =>
      if s.down.isEmpty then { s with up := s.up.map (· + 1) }
      else { s with down := s.down.dropLast }
  | .name n => { s with down := s.down ++ [n] }

/-- The spot that the components lead to from `s`. -/
def follow (s : Spot ν) (cs : List (Component ν)) : Spot ν := cs.foldl enter s

/-- The directory that the names of a spot are below, for a path that starts at `p`. -/
def base (p : List ν) : Option Nat → List ν
  | none => []
  | some k => List.dropLast^[k] p

/-- The place of a spot, for a path that starts at `p`. -/
def place (s : Spot ν) (p : List ν) : List ν := base p s.up ++ s.down

/-- The last component is a name. -/
def endsInName (cs : List (Component ν)) : Bool :=
  match cs.getLast? with
  | some (.name _) => true
  | some .current | some .parent | none => false

/-- The path ends in a name, and does not lead through the place that it ends at. -/
def CanCreate [DecidableEq ν] (s : Spot ν) (cs : List (Component ν)) : Prop :=
  endsInName cs = true ∧ ∀ pre ∈ cs.dropLast.inits, s.follow pre ≠ s.follow cs

instance [DecidableEq ν] (s : Spot ν) (cs : List (Component ν)) : Decidable (s.CanCreate cs) :=
  inferInstanceAs (Decidable (_ ∧ _))

/-- Continued by the second path, the first can create a file away from where it leads. -/
def LeadsAway [DecidableEq ν] (s : Spot ν) (cs cs' : List (Component ν)) : Prop :=
  s.CanCreate (cs ++ cs') ∧ s.follow (cs ++ cs').dropLast ≠ s.follow cs

instance [DecidableEq ν] (s : Spot ν) (cs cs' : List (Component ν)) :
    Decidable (s.LeadsAway cs cs') :=
  inferInstanceAs (Decidable (_ ∧ _))

section Follow

variable {t : FileTree ν β} {s : Spot ν} {p q : List ν} {cs pre : List (Component ν)} {n : ν}

theorem follow_concat (s : Spot ν) (cs : List (Component ν)) (c : Component ν) :
    s.follow (cs ++ [c]) = (s.follow cs).enter c :=
  List.foldl_concat enter s c cs

theorem dropLast_base (p : List ν) (up : Option Nat) :
    (base p up).dropLast = base p (up.map (· + 1)) := by
  cases up with
  | none => rfl
  | some k => exact (Function.iterate_succ_apply' List.dropLast k p).symm

theorem place_parent (s : Spot ν) (p : List ν) :
    (s.enter .parent).place p = (s.place p).dropLast := by
  unfold enter place
  by_cases h : s.down = []
  · rw [h, if_pos List.isEmpty_nil, List.append_nil, List.append_nil, dropLast_base]
  · rw [if_neg (by rwa [List.isEmpty_iff]), List.dropLast_append_of_ne_nil h]

theorem place_name (s : Spot ν) (p : List ν) (n : ν) :
    (s.enter (.name n)).place p = s.place p ++ [n] :=
  (List.append_assoc _ _ _).symm

/-- A tree that lets a component be entered leads to its spot. -/
theorem place_enter {c : Component ν} (h : t.enter (s.place p) c = some q) :
    (s.enter c).place p = q := by
  cases c with
  | current => exact Option.some.inj h
  | parent =>
      rw [place_parent]
      exact Option.some.inj h
  | name n =>
      rw [place_name]
      exact Option.some.inj (Option.ite_none_right_eq_some.mp h).2

/-- **Every tree agrees with the spots of a path.** -/
theorem place_follow (h : t.walk (s.place p) cs = some q) : (s.follow cs).place p = q := by
  induction cs generalizing s with
  | nil => exact Option.some.inj h
  | cons c cs ih =>
      obtain ⟨r, hr, hrest⟩ := Option.bind_eq_some_iff.mp h
      obtain rfl := place_enter hr
      exact ih hrest

/-- A path can be followed if every place on its way is a directory. -/
theorem walk_follow (h : ∀ pre, pre <+: cs → t.isDir ((s.follow pre).place p) = true) :
    t.walk (s.place p) cs = some ((s.follow cs).place p) := by
  induction cs using List.reverseRecOn with
  | nil => rfl
  | append_singleton cs c ih =>
      have hcs := h (cs ++ [c]) List.prefix_rfl
      rw [FileTree.walk_append, ih fun pre hpre => h pre (hpre.trans (List.prefix_append cs [c]))]
      rw [follow_concat] at hcs ⊢
      show (t.enter _ c).bind some = _
      rw [Option.bind_fun_some]
      cases c with
      | current => rfl
      | parent => exact congrArg some (place_parent _ p).symm
      | name n =>
          rw [place_name] at hcs ⊢
          exact if_pos hcs

theorem endsInName_iff : endsInName cs = true ↔ ∃ init n, cs = init ++ [.name n] := by
  constructor
  · intro h
    induction cs using List.reverseRecOn with
    | nil => cases h
    | append_singleton cs c =>
        rw [endsInName, List.getLast?_concat] at h
        cases c with
        | current | parent => cases h
        | name n => exact ⟨cs, n, rfl⟩
  · rintro ⟨init, n, rfl⟩
    rw [endsInName, List.getLast?_concat]

/-- **What a path that creates a file needs**, in every tree. -/
theorem canCreate_of_create [DecidableEq ν] {x : t.Entry} (hp : t.isDir (s.place p) = true)
    (h : t.create (s.place p) cs = some x) :
    s.CanCreate cs ∧ (s.follow cs.dropLast).place p = x.dir := by
  obtain ⟨init, rfl, hwalk⟩ := FileTree.create_eq_some h
  have hdir := place_follow hwalk
  have hplace : (s.follow (init ++ [.name x.name])).place p = x.place := by
    rw [follow_concat, place_name, hdir]
    rfl
  have hends : endsInName (init ++ [.name x.name]) = true := endsInName_iff.mpr ⟨init, x.name, rfl⟩
  have hway : ∀ pre ∈ init.inits, s.follow pre ≠ s.follow (init ++ [.name x.name]) := by
    intro pre hpre heq
    -- the place of the file would be a directory on the way
    obtain ⟨r, hr, hisDir⟩ := FileTree.isDir_of_isPrefix hp hwalk ((List.mem_inits _ _).mp hpre)
    rw [← place_follow hr, heq, hplace] at hisDir
    exact Bool.noConfusion (hisDir.symm.trans x.isDir_name)
  rw [CanCreate, List.dropLast_concat]
  exact ⟨⟨hends, hway⟩, hdir⟩

/-! ### A tree for a path

Where the path starts, many directories of one fresh name are inside each other, so
that different spots are different places.
-/

theorem base_replicate (n : ν) (m : Nat) {up : Option Nat} {k : Nat} (h : up = some k) :
    base (List.replicate m n) up = List.replicate (m - k) n := by
  rw [h]
  show List.dropLast^[k] _ = _
  clear h
  induction k with
  | zero => rfl
  | succ k ih => rw [Function.iterate_succ_apply', ih, List.dropLast_replicate, Nat.sub_sub]

theorem mem_down_enter {c : Component ν} (h : n ∈ (s.enter c).down) :
    n ∈ s.down ∨ .name n = c := by
  cases c with
  | current => exact .inl h
  | parent =>
      unfold enter at h
      split_ifs at h
      · exact .inl h
      · exact .inl (List.mem_of_mem_dropLast h)
  | name m =>
      rcases List.mem_append.mp h with h | h
      · exact .inl h
      · exact .inr (congrArg Component.name (List.mem_singleton.mp h))

theorem mem_down_follow (h : n ∈ (s.follow cs).down) : n ∈ s.down ∨ .name n ∈ cs := by
  induction cs using List.reverseRecOn with
  | nil => exact .inl h
  | append_singleton cs c ih =>
      rw [follow_concat] at h
      rcases mem_down_enter h with h | rfl
      · exact (ih h).imp_right (List.mem_append_left _)
      · exact .inr List.mem_concat_self

theorem up_follow (s : Spot ν) (cs : List (Component ν)) :
    ∃ k, k ≤ cs.length ∧ (s.follow cs).up = s.up.map (· + k) := by
  induction cs using List.reverseRecOn with
  | nil => exact ⟨0, Nat.le_refl 0, Option.map_id'.symm⟩
  | append_singleton cs c ih =>
      obtain ⟨k, hk, hup⟩ := ih
      rw [follow_concat, List.length_append, List.length_singleton]
      cases c with
      | current | name n => exact ⟨k, Nat.le_succ_of_le hk, hup⟩
      | parent =>
          unfold enter
          split_ifs
          · have hclimb : (s.follow cs).up.map (· + 1) = s.up.map (· + (k + 1)) := by
              rw [hup, Option.map_map]
              rfl
            exact ⟨k + 1, Nat.succ_le_succ hk, hclimb⟩
          · exact ⟨k, Nat.le_succ_of_le hk, hup⟩

theorem eq_of_append_replicate {a b : Nat} {u v : List ν} (hu : n ∉ u) (hv : n ∉ v)
    (h : List.replicate a n ++ u = List.replicate b n ++ v) : a = b ∧ u = v := by
  classical
  have hcount := congrArg (List.count n) h
  rw [List.count_append, List.count_append, List.count_replicate_self, List.count_replicate_self,
    List.count_eq_zero.mpr hu, List.count_eq_zero.mpr hv] at hcount
  obtain rfl : a = b := hcount
  exact ⟨rfl, List.append_cancel_left h⟩

/-- Different spots are different places. -/
theorem follow_inj {m : Nat} {cs' : List (Component ν)} (hs : n ∉ s.down)
    (hcs : .name n ∉ cs) (hcs' : .name n ∉ cs')
    (hm : s.up.getD 0 + cs.length ≤ m) (hm' : s.up.getD 0 + cs'.length ≤ m)
    (h : (s.follow cs).place (List.replicate m n) = (s.follow cs').place (List.replicate m n)) :
    s.follow cs = s.follow cs' := by
  have hdown : n ∉ (s.follow cs).down := fun h => (mem_down_follow h).elim hs hcs
  have hdown' : n ∉ (s.follow cs').down := fun h => (mem_down_follow h).elim hs hcs'
  obtain ⟨k, hk, hup⟩ := up_follow s cs
  obtain ⟨k', hk', hup'⟩ := up_follow s cs'
  cases hu : s.up with
  | none =>
      rw [hu] at hup hup'
      rw [place, place, hup, hup'] at h
      rw [Spot.ext_iff, hup, hup']
      exact ⟨rfl, List.append_cancel_left h⟩
  | some j =>
      rw [hu] at hup hup' hm hm'
      rw [place, place, base_replicate n m hup, base_replicate n m hup'] at h
      obtain ⟨hsub, hd⟩ := eq_of_append_replicate hdown hdown' h
      have hle : j + k ≤ m := Nat.le_trans (Nat.add_le_add_left hk j) hm
      have hle' : j + k' ≤ m := Nat.le_trans (Nat.add_le_add_left hk' j) hm'
      have hsub : m - (j + k) = m - (j + k') := hsub
      rw [Spot.ext_iff, hup, hup']
      exact ⟨congrArg some (show j + k = j + k' by omega), hd⟩

theorem base_isPrefix (p : List ν) (up : Option Nat) : base p up <+: p := by
  cases up with
  | none => exact List.nil_prefix
  | some k =>
      show List.dropLast^[k] p <+: p
      induction k with
      | zero => exact List.prefix_rfl
      | succ k ih =>
          rw [Function.iterate_succ_apply']
          exact (List.dropLast_prefix _).trans ih

/-- A path comes to what is below a place only through the place. -/
theorem not_prefix_follow {target : List ν} (hstart : ¬ target <+: s.place p)
    (h : ∀ pre, pre <+: cs → (s.follow pre).place p ≠ target) :
    ¬ target <+: (s.follow cs).place p := by
  induction cs using List.reverseRecOn with
  | nil => exact hstart
  | append_singleton cs c ih =>
      have ih := ih fun pre hpre => h pre (hpre.trans (List.prefix_append cs [c]))
      have hne := h (cs ++ [c]) List.prefix_rfl
      rw [follow_concat] at hne ⊢
      cases c with
      | current => exact ih
      | parent =>
          rw [place_parent]
          exact fun hpre => ih (hpre.trans (List.dropLast_prefix _))
      | name n =>
          rw [place_name] at hne ⊢
          intro hpre
          rcases List.prefix_concat_iff.mp hpre with heq | hpre
          · exact hne heq.symm
          · exact ih hpre

theorem exists_fresh [Infinite ν] (cs : List (Component ν)) : ∃ n, .name n ∉ cs := by
  classical
  have hinf := Set.infinite_range_of_injective fun m n : ν => Component.name.inj
  obtain ⟨_, ⟨n, rfl⟩, hn⟩ := hinf.exists_notMem_finset cs.toFinset
  exact ⟨n, fun h => hn (List.mem_toFinset.mpr h)⟩

variable [DecidableEq ν] {d : List ν} {cs' : List (Component ν)}

/-- **A path that does not lead away**, in any tree. -/
theorem dir_eq_of_not_leadsAway {x : t.Entry} (h : ¬ s.LeadsAway cs cs')
    (hp : t.isDir (s.place p) = true) (hd : t.walk (s.place p) cs = some d)
    (hx : t.create (s.place p) (cs ++ cs') = some x) : x.dir = d := by
  obtain ⟨hcan, hdir⟩ := canCreate_of_create hp hx
  have heq : s.follow (cs ++ cs').dropLast = s.follow cs := by
    by_contra hne
    exact h ⟨hcan, hne⟩
  rw [← hdir, heq, place_follow hd]

/-- A tree in which a path can be followed up to its last name, and its spots told apart. -/
theorem CanCreate.exists_tree (γ : Type*) [Infinite ν] {init : List (Component ν)} {m : ν}
    (h : s.CanCreate (init ++ [.name m])) (hs : s.down = []) :
    ∃ (t : FileTree ν γ) (p : List ν), t.isDir p = true ∧
      (∀ pre, pre <+: init → t.isDir ((s.follow pre).place p) = true) ∧
      t.isDir ((s.follow init).place p ++ [m]) = false ∧
      ∀ pre pre', pre <+: init → pre' <+: init →
        (s.follow pre).place p = (s.follow pre').place p → s.follow pre = s.follow pre' := by
  have hcan := h.2
  rw [List.dropLast_concat] at hcan
  obtain ⟨n, hn⟩ := exists_fresh (init ++ [Component.name m])
  -- deep enough for every `..` of the path
  let p := List.replicate (s.up.getD 0 + (init ++ [Component.name m]).length) n
  have hinj : ∀ pre pre', pre <+: init ++ [.name m] → pre' <+: init ++ [.name m] →
      (s.follow pre).place p = (s.follow pre').place p → s.follow pre = s.follow pre' := by
    intro pre pre' hpre hpre'
    exact follow_inj (by rw [hs]; exact List.not_mem_nil) (fun hmem => hn (hpre.mem hmem))
      (fun hmem => hn (hpre'.mem hmem)) (Nat.add_le_add_left hpre.length_le _)
      (Nat.add_le_add_left hpre'.length_le _)
  have hinit : ∀ pre, pre <+: init → pre <+: init ++ [.name m] := fun pre hpre =>
    hpre.trans (List.prefix_append init _)
  have htarget : (s.follow (init ++ [.name m])).place p = (s.follow init).place p ++ [m] := by
    rw [follow_concat, place_name]
  have hp : ¬ (s.follow init).place p ++ [m] <+: p := by
    intro hpre
    obtain rfl : m = n := List.eq_of_mem_replicate (hpre.mem List.mem_concat_self)
    exact hn List.mem_concat_self
  have hstart : ¬ (s.follow init).place p ++ [m] <+: s.place p := by
    have hbase : s.place p = base p s.up := by rw [place, hs, List.append_nil]
    rw [hbase]
    exact fun hpre => hp (hpre.trans (base_isPrefix p s.up))
  have hway : ∀ pre, pre <+: init →
      ¬ (s.follow init).place p ++ [m] <+: (s.follow pre).place p := by
    intro pre hpre
    apply not_prefix_follow hstart
    intro pre' hpre' heq
    have hpre' := hpre'.trans hpre
    exact hcan pre' ((List.mem_inits _ _).mpr hpre')
      (hinj pre' _ (hinit pre' hpre') List.prefix_rfl (heq.trans htarget.symm))
  let t : FileTree ν γ := .without ((s.follow init).place p ++ [m]) (List.concat_ne_nil m _)
  have hnot : t.isDir ((s.follow init).place p ++ [m]) = false := by
    rw [Bool.eq_false_iff, Ne, FileTree.without_isDir]
    exact fun hpre => hpre List.prefix_rfl
  exact ⟨t, p, (FileTree.without_isDir _).mpr hp,
    fun pre hpre => (FileTree.without_isDir _).mpr (hway pre hpre), hnot,
    fun pre pre' hpre hpre' => hinj pre pre' (hinit pre hpre) (hinit pre' hpre')⟩

/-- **A path that leads away does so in some tree.** -/
theorem LeadsAway.exists_create [Infinite ν] (h : s.LeadsAway cs cs') (hs : s.down = [])
    (hne : cs' ≠ []) :
    ∃ (t : FileTree ν β) (p d : List ν) (x : t.Entry), t.isDir p = true ∧
      t.walk (s.place p) cs = some d ∧ t.create (s.place p) (cs ++ cs') = some x ∧ x.dir ≠ d := by
  obtain ⟨hcan, haway⟩ := h
  have hcs : cs <+: (cs ++ cs').dropLast := by
    rw [List.dropLast_append_of_ne_nil hne]
    exact List.prefix_append cs _
  obtain ⟨init, m, hall⟩ := endsInName_iff.mp hcan.1
  rw [hall] at hcan haway hcs ⊢
  rw [List.dropLast_concat] at haway hcs
  obtain ⟨t, p, hp, hdirs, hnot, hinj⟩ := hcan.exists_tree β hs
  have hinit := hdirs init List.prefix_rfl
  have hwalk : t.walk (s.place p) cs = some ((s.follow cs).place p) :=
    walk_follow fun pre hpre => hdirs pre (hpre.trans hcs)
  have hcreate : t.create (s.place p) (init ++ [.name m]) =
      some ⟨(s.follow init).place p, m, hinit, hnot⟩ := by
    rw [FileTree.create_concat, walk_follow hdirs, Option.bind_some, dif_pos ⟨hinit, hnot⟩]
  exact ⟨t, p, _, _, hp, hwalk, hcreate, fun heq => haway (hinj init cs List.prefix_rfl hcs heq)⟩

end Follow

end Spot

end Paths
