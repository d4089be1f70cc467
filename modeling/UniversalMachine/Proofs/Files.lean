import UniversalMachine.CommandLine.Action
import UniversalMachine.Proofs.Reading

/-! Files that are opened and written.
To open a file keeps what stands in every place but one, where a file may be made, so that every
name leads to the file that it led to before. What is written then goes to that one file, and shows
under all names that lead to it. -/

namespace UniversalMachine.CommandLine

open Assembly (bind_eq_ok_iff ok_bind lookup_cons_eq_ite)

theorem Path.isAbove_iff {short long : Path} :
    short.isAbove long = true ↔ short <+: long ∧ short.length < long.length := by
  simp [isAbove]

theorem pieces_ne_nil (text : List Char) : pieces text ≠ [] := by
  cases text with
  | nil => exact List.cons_ne_nil _ _
  | cons c rest =>
    rw [pieces]
    split
    · exact List.cons_ne_nil _ _
    · split <;> exact List.cons_ne_nil _ _

theorem parts_ne_nil (name : String) : parts name ≠ [] := by
  intro h
  exact pieces_ne_nil name.toList (List.map_eq_nil_iff.mp h)

namespace FileSystem

variable {files after : FileSystem} {name other : String} {place path parent : Path}
  {names : List String} {number n : Nat} {bytes : Bytes}

/-- The name leads to this file. -/
def Names (files : FileSystem) (name : String) (number : Nat) : Prop :=
  ∃ path, files.locate name = .ok path ∧ files.node? path = some (.file number)

/-- There is a file of this name, with these contents. -/
def Holds (files : FileSystem) (name : String) (bytes : Bytes) : Prop :=
  ∃ number, files.Names name number ∧ files.content number = bytes

/-- Both names lead to one file. -/
def SameFile (files : FileSystem) (name other : String) : Prop :=
  ∃ number, files.Names name number ∧ files.Names other number

/-- The file of this name stands at the path. -/
def StandsAt (files : FileSystem) (name : String) (path : Path) : Prop :=
  ∃ number, files.Names name number ∧ files.node? path = some (.file number)

/-- A file of this name can be opened for writing: it leads to a file, or to a place where nothing
stands. A slash at the end would make it the name of a directory. -/
def CanOpen (files : FileSystem) (name : String) : Prop :=
  name.toList.getLast? ≠ some '/' ∧ ∃ path, files.locate name = .ok path ∧
    ∀ node, files.node? path = some node → ∃ number, node = .file number

theorem Names.unique (h : files.Names name number) (h' : files.Names name n) : number = n := by
  obtain ⟨path, hlocate, hnode⟩ := h
  obtain ⟨path', hlocate', hnode'⟩ := h'
  rw [hlocate] at hlocate'
  cases hlocate'
  rw [hnode] at hnode'
  cases hnode'
  rfl

theorem read_eq_ok_iff : files.read name = .ok bytes ↔ files.Holds name bytes := by
  constructor
  · intro h
    rw [read] at h
    obtain ⟨path, hlocate, h⟩ := bind_eq_ok_iff.mp h
    split at h
    · cases h
    · rename_i number hnode
      exact ⟨number, ⟨path, hlocate, hnode⟩, Except.ok.inj h⟩
    · cases h
  · rintro ⟨number, ⟨path, hlocate, hnode⟩, rfl⟩
    rw [read, hlocate, ok_bind, hnode]

section Directories

theorem node?_eq_directory_of_above (hnode : files.node? path ≠ none) (habove : parent <+: path)
    (hne : parent ≠ path) : files.node? parent = some .directory := by
  have hlt : parent.length < path.length := by
    refine Nat.lt_of_le_of_ne habove.length_le fun hlength => hne ?_
    exact habove.eq_of_length hlength
  rw [node?] at hnode ⊢
  by_cases hempty : parent.isEmpty = true
  · rw [hempty]
    rfl
  · -- either something lies below the path, or the path has a node itself
    have hbelow : ∃ entry ∈ files.nodes, path <+: entry.1 := by
      split at hnode
      · rename_i h
        rw [Bool.or_eq_true, List.any_eq_true] at h
        rcases h with h | ⟨entry, hentry, h⟩
        · rw [List.isEmpty_iff.mp h] at hlt
          exact absurd hlt (Nat.not_lt_zero _)
        · exact ⟨entry, hentry, (Path.isAbove_iff.mp h).1⟩
      · obtain ⟨node, hlookup⟩ := Option.ne_none_iff_exists'.mp hnode
        obtain ⟨front, back, hnodes, -⟩ := List.lookup_eq_some_iff.mp hlookup
        exact ⟨(path, node), by simp [hnodes], List.prefix_rfl⟩
    obtain ⟨entry, hentry, hbegins⟩ := hbelow
    have hany : files.nodes.any (fun entry => parent.isAbove entry.1) = true := by
      rw [List.any_eq_true]
      refine ⟨entry, hentry, Path.isAbove_iff.mpr ⟨habove.trans hbegins, ?_⟩⟩
      exact Nat.lt_of_lt_of_le hlt hbegins.length_le
    rw [hany, Bool.or_true]
    rfl

theorem node?_dropLast (h : files.node? path = some .directory) :
    files.node? path.dropLast = some .directory := by
  cases path with
  | nil => rfl
  | cons first rest =>
    apply node?_eq_directory_of_above (by rw [h]; exact Option.some_ne_none _)
      (List.dropLast_prefix _)
    intro heq
    have hlength := congrArg List.length heq
    simp at hlength

/-- A path that names lead to: a directory, or something in a directory. -/
inductive Stands (files : FileSystem) : Path → Prop where
  | directory {path : Path} : files.node? path = some .directory → Stands files path
  | child {parent : Path} (name : String) : files.node? parent = some .directory →
      Stands files (parent ++ [name])

theorem follow_stands (h : files.follow place names = .ok (.arrived path))
    (hplace : names = [] → files.Stands place) : files.Stands path := by
  induction names generalizing place with
  | nil =>
    cases h
    exact hplace rfl
  | cons name rest ih =>
    rw [follow] at h
    split at h
    · rename_i hdirectory
      split at h
      · exact ih h fun _ => .directory hdirectory
      · split at h
        · exact ih h fun _ => .directory (node?_dropLast hdirectory)
        · split at h
          · cases h
          · exact ih h fun _ => .child name hdirectory
    · cases h
    · cases h

theorem walk_stands {links : Nat} (h : files.walk links place names = .ok path)
    (hnames : names ≠ []) : files.Stands path := by
  induction links generalizing place names with
  | zero => cases h
  | succ links ih =>
    rw [walk] at h
    obtain ⟨stop, hfollow, h⟩ := bind_eq_ok_iff.mp h
    cases stop with
    | arrived found =>
      cases h
      exact follow_stands hfollow fun hnil => absurd hnil hnames
    | link directory target rest =>
      exact ih h (List.append_ne_nil_of_left_ne_nil (parts_ne_nil target) rest)

theorem locate_stands (h : files.locate name = .ok path) : files.Stands path := by
  rw [locate] at h
  split at h
  · cases h
  · exact walk_stands h (parts_ne_nil name)

end Directories

section Growth

/-- A file has been made where nothing stood, or nothing has. -/
structure Grows (before after : FileSystem) : Prop where
  home : after.workingDirectory = before.workingDirectory
  nodes : ∀ path, after.node? path = before.node? path ∨
    before.node? path = none ∧ ∃ number, after.node? path = some (.file number)

theorem Grows.node?_eq_some (h : Grows files after) {node : Node}
    (hnode : files.node? path = some node) : after.node? path = some node := by
  rcases h.nodes path with hsame | ⟨hnone, -⟩
  · rw [hsame, hnode]
  · rw [hnone] at hnode
    cases hnode

theorem Grows.not_link (h : Grows files after)
    (hlink : ∀ target, files.node? path ≠ some (.link target)) (target : String) :
    after.node? path ≠ some (.link target) := by
  rcases h.nodes path with hsame | ⟨-, number, hmade⟩
  · rw [hsame]
    exact hlink target
  · rw [hmade]
    intro h
    cases h

theorem Grows.follow (h : Grows files after) {stop : Stop}
    (hfollow : files.follow place names = .ok stop) : after.follow place names = .ok stop := by
  induction names generalizing place with
  | nil => exact hfollow
  | cons name rest ih =>
    rw [FileSystem.follow] at hfollow ⊢
    split at hfollow
    · rename_i hdirectory
      rw [h.node?_eq_some hdirectory]
      dsimp only
      split at hfollow
      · rename_i hstay
        rw [if_pos hstay]
        exact ih hfollow
      · rename_i hstay
        rw [if_neg hstay]
        split at hfollow
        · rename_i hup
          rw [if_pos hup]
          exact ih hfollow
        · rename_i hup
          rw [if_neg hup]
          split at hfollow
          · rename_i target hlink
            rw [h.node?_eq_some hlink]
            exact hfollow
          · rename_i hlink
            split
            · rename_i target hmade
              exact absurd hmade (h.not_link hlink target)
            · exact ih hfollow
    · cases hfollow
    · cases hfollow

theorem Grows.walk (h : Grows files after) {links : Nat}
    (hwalk : files.walk links place names = .ok path) :
    after.walk links place names = .ok path := by
  induction links generalizing place names with
  | zero => cases hwalk
  | succ links ih =>
    rw [FileSystem.walk] at hwalk ⊢
    obtain ⟨stop, hfollow, hwalk⟩ := bind_eq_ok_iff.mp hwalk
    rw [h.follow hfollow, ok_bind]
    cases stop with
    | arrived found => exact hwalk
    | link directory target rest => exact ih hwalk

theorem Grows.locate (h : Grows files after) (hlocate : files.locate name = .ok path) :
    after.locate name = .ok path := by
  rw [FileSystem.locate] at hlocate ⊢
  split at hlocate
  · cases hlocate
  · rename_i hname
    rw [if_neg hname, h.home]
    exact h.walk hlocate

/-- Names lead to the files that they led to. -/
theorem Grows.names_of (h : Grows files after) (hnames : files.Names name number) :
    after.Names name number := by
  obtain ⟨path, hlocate, hnode⟩ := hnames
  exact ⟨path, h.locate hlocate, h.node?_eq_some hnode⟩

end Growth

section Contents

theorem content_store (files : FileSystem) (number : Nat) (bytes : Bytes) (n : Nat) :
    (files.store number bytes).content n = if n = number then bytes else files.content n := by
  rw [content, store, lookup_cons_eq_ite]
  split
  · rfl
  · rfl

theorem lt_fresh (h : files.node? path = some (.file number)) : number < files.fresh := by
  have hlookup : files.nodes.lookup path = some (.file number) := by
    rw [node?] at h
    split at h
    · cases h
    · exact h
  rw [fresh]
  generalize files.nodes = nodes at hlookup
  induction nodes with
  | nil => cases hlookup
  | cons entry rest ih =>
    obtain ⟨first, node⟩ := entry
    rw [lookup_cons_eq_ite] at hlookup
    rw [List.foldr_cons]
    split at hlookup
    · obtain rfl := Option.some.inj hlookup
      exact Nat.lt_of_lt_of_le (Nat.lt_succ_self number) (Nat.le_max_left _ _)
    · have hlt := ih hlookup
      split
      · exact Nat.lt_of_lt_of_le hlt (Nat.le_max_right _ _)
      · exact hlt

/-- A file made in a directory makes nothing else. -/
theorem node?_cons (hparent : files.node? parent = some .directory) {last : String}
    (hnone : files.node? (parent ++ [last]) = none) (node : Node) (path : Path) :
    { files with nodes := (parent ++ [last], node) :: files.nodes }.node? path =
      if path = parent ++ [last] then some node else files.node? path := by
  by_cases hpath : path = parent ++ [last]
  · rw [if_pos hpath, hpath]
    have hself : Path.isAbove (parent ++ [last]) (parent ++ [last]) = false := by
      simp [Path.isAbove]
    rw [node?] at hnone ⊢
    split at hnone
    · cases hnone
    · rename_i hbelow
      rw [List.any_cons, hself, Bool.false_or, if_neg hbelow, lookup_cons_eq_ite, if_pos rfl]
  · rw [if_neg hpath]
    by_cases habove : Path.isAbove path (parent ++ [last]) = true
    · -- what lies above the new file lies above its directory or is that directory
      have hdirectory : files.node? path = some .directory := by
        obtain ⟨hbegins, -⟩ := Path.isAbove_iff.mp habove
        rcases List.prefix_concat_iff.mp hbegins with rfl | hbegins
        · exact absurd rfl hpath
        · by_cases heq : path = parent
          · rw [heq, hparent]
          · refine node?_eq_directory_of_above ?_ hbegins heq
            rw [hparent]
            exact Option.some_ne_none _
      rw [hdirectory, node?, List.any_cons, habove, Bool.true_or, Bool.or_true]
      rfl
    · rw [node?, node?, List.any_cons, Bool.eq_false_iff.mpr habove, Bool.false_or,
        lookup_cons_eq_ite, if_neg hpath]

theorem dropSlashes_eq (h : name.toList.getLast? ≠ some '/') : dropSlashes name = name := by
  have hkeep : name.toList.reverse.dropWhile (· == '/') = name.toList.reverse := by
    cases hr : name.toList.reverse with
    | nil => rfl
    | cons c rest =>
      rw [← List.head?_reverse, hr, List.head?_cons, Ne, Option.some.injEq] at h
      exact List.dropWhile_cons_of_neg (by simpa using h)
  rw [dropSlashes, hkeep, List.reverse_reverse, String.ofList_toList]
  split
  · rfl
  · rfl

end Contents

section Opening

theorem create_eq_ok (h : files.create name = .ok (number, after)) :
    name.toList.getLast? ≠ some '/' ∧ ∃ path, files.locate name = .ok path ∧
      (files.node? path = some (.file number) ∧ after = files.store number [] ∨
        files.node? path = none ∧ number = files.fresh ∧
          after = { files with nodes := (path, .file number) :: files.nodes }.store number []) := by
  rw [create] at h
  obtain ⟨path, hlocate, h⟩ := bind_eq_ok_iff.mp h
  split at h
  · cases h
  · rename_i hslash
    rw [dropSlashes_eq hslash] at hlocate
    refine ⟨hslash, path, hlocate, ?_⟩
    split at h
    · cases h
    · rename_i hnode
      cases h
      exact .inl ⟨hnode, rfl⟩
    · cases h
    · rename_i hnode
      cases h
      exact .inr ⟨hnode, rfl, rfl⟩

theorem canOpen_iff :
    files.CanOpen name ↔ ∃ number after, files.create name = .ok (number, after) := by
  constructor
  · rintro ⟨hslash, path, hlocate, hfile⟩
    rw [create, dropSlashes_eq hslash, hlocate, ok_bind, if_neg hslash]
    cases hnode : files.node? path with
    | none => exact ⟨_, _, rfl⟩
    | some node =>
      obtain ⟨number, rfl⟩ := hfile node hnode
      exact ⟨_, _, rfl⟩
  · rintro ⟨number, after, h⟩
    obtain ⟨hslash, path, hlocate, hplace⟩ := create_eq_ok h
    refine ⟨hslash, path, hlocate, fun node hnode => ?_⟩
    rcases hplace with ⟨hfile, -⟩ | ⟨hnone, -⟩
    · rw [hfile] at hnode
      exact ⟨number, (Option.some.inj hnode).symm⟩
    · rw [hnone] at hnode
      cases hnode

/-- A file has been opened under a name. What had its number before is what the name led to. -/
structure Opened (before : FileSystem) (name : String) (number : Nat) (after : FileSystem) :
    Prop where
  grows : Grows before after
  named : after.Names name number
  known : ∀ path, before.node? path = some (.file number) → before.Names name number
  made : ∀ path, after.node? path ≠ some (.file number) → after.node? path = before.node? path
  kept : ∀ n, n ≠ number → after.content n = before.content n

theorem opened_of_create (h : files.create name = .ok (number, after)) :
    Opened files name number after := by
  obtain ⟨-, path, hlocate, ⟨hnode, rfl⟩ | ⟨hnone, rfl, rfl⟩⟩ := create_eq_ok h
  · have hgrows : Grows files (files.store number []) := ⟨rfl, fun _ => .inl rfl⟩
    refine ⟨hgrows, hgrows.names_of ⟨path, hlocate, hnode⟩, fun _ _ => ⟨path, hlocate, hnode⟩,
      fun _ _ => rfl, ?_⟩
    intro n hn
    rw [content_store, if_neg hn]
  · -- a place where nothing stands is in a directory
    obtain ⟨parent, last, rfl, hparent⟩ :
        ∃ parent last, path = parent ++ [last] ∧ files.node? parent = some .directory := by
      cases locate_stands hlocate with
      | directory hdirectory =>
        rw [hnone] at hdirectory
        cases hdirectory
      | child last hparent => exact ⟨_, last, rfl, hparent⟩
    have hnodes (place : Path) := node?_cons hparent hnone (.file files.fresh) place
    have hgrows : Grows files ({ files with
        nodes := (parent ++ [last], .file files.fresh) :: files.nodes }.store files.fresh []) := by
      refine ⟨rfl, fun place => ?_⟩
      by_cases hplace : place = parent ++ [last]
      · rw [hplace]
        exact .inr ⟨hnone, _, (hnodes _).trans (if_pos rfl)⟩
      · exact .inl ((hnodes place).trans (if_neg hplace))
    refine ⟨hgrows, ⟨_, hgrows.locate hlocate, (hnodes _).trans (if_pos rfl)⟩, ?_, ?_, ?_⟩
    · intro place hold
      exact absurd (lt_fresh hold) (Nat.lt_irrefl _)
    · intro place hother
      refine (hnodes place).trans (if_neg ?_)
      rintro rfl
      exact hother ((hnodes _).trans (if_pos rfl))
    · intro n hn
      rw [content_store, if_neg hn]
      rfl

end Opening

/-- The file of this name holds these bytes, and no other file has changed. -/
structure Replaced (before after : FileSystem) (name : String) (bytes : Bytes) : Prop where
  leads : ∀ other number, before.Names other number → after.Names other number
  holds : after.Holds name bytes
  others : ∀ path, ¬ after.StandsAt name path → after.fileAt? path = before.fileAt? path
  reads : ∀ other contents, before.Holds other contents → ¬ before.SameFile name other →
    after.Holds other contents

theorem Opened.replaced (h : Opened files name number after) (bytes : Bytes) :
    Replaced files (after.store number bytes) name bytes := by
  have hstored : Grows after (after.store number bytes) := ⟨rfl, fun _ => .inl rfl⟩
  have hnamed := hstored.names_of h.named
  have hkept {n : Nat} (hn : n ≠ number) :
      (after.store number bytes).content n = files.content n := by
    rw [content_store, if_neg hn, h.kept n hn]
  refine ⟨fun other n hother => hstored.names_of (h.grows.names_of hother), ⟨number, hnamed, ?_⟩,
    ?_, ?_⟩
  · rw [content_store, if_pos rfl]
  · intro path hother
    have hnode : after.node? path ≠ some (.file number) := fun hnode =>
      hother ⟨number, hnamed, hnode⟩
    have hsame : (after.store number bytes).node? path = files.node? path := h.made path hnode
    rw [fileAt?, fileAt?, hsame]
    split
    · rename_i n hfile
      rw [hkept]
      rintro rfl
      exact hnode (hsame.trans hfile)
    · rfl
  · rintro other contents ⟨n, hother, hcontents⟩ hdifferent
    refine ⟨n, hstored.names_of (h.grows.names_of hother), ?_⟩
    rw [hkept, hcontents]
    rintro rfl
    obtain ⟨path, -, hnode⟩ := id hother
    exact hdifferent ⟨n, h.known path hnode, hother⟩

end FileSystem

namespace World

variable {world : World} {name : String} {bytes : Bytes} {result : Except Failure Unit}
  {after : FileSystem}

/-- There is room for all of these bytes. -/
def Takes (world : World) (bytes : Bytes) : Prop :=
  ∀ room failure, world.shortage = some (room, failure) → bytes.length ≤ room

/-- A file of this name can be opened and takes all of these bytes. -/
def CanWrite (world : World) (name : String) (bytes : Bytes) : Prop :=
  world.files.CanOpen name ∧ world.Takes bytes

/-- What comes of writing a file. A failure comes before the file is opened, which changes nothing,
or it leaves a part of the bytes in the file. -/
inductive Wrote (world : World) (name : String) (bytes : Bytes) :
    Except Failure Unit → FileSystem → Prop where
  | whole {after : FileSystem} : world.CanWrite name bytes →
      world.files.Replaced after name bytes → Wrote world name bytes (.ok ()) after
  | refused (failure : Failure) : ¬ world.files.CanOpen name →
      Wrote world name bytes (.error failure) world.files
  | broken (failure : Failure) {after : FileSystem} {n : Nat} : world.files.CanOpen name →
      ¬ world.Takes bytes → n < bytes.length →
      world.files.Replaced after name (bytes.take n) → Wrote world name bytes (.error failure) after

theorem exists_wrote (world : World) (name : String) (bytes : Bytes) :
    ∃ result after, world.write name bytes = (result, { world with files := after }) ∧
      world.Wrote name bytes result after := by
  rw [write]
  cases hcreate : world.files.create name with
  | error e =>
    refine ⟨_, _, rfl, .refused _ fun hopen => ?_⟩
    obtain ⟨number, after, hok⟩ := FileSystem.canOpen_iff.mp hopen
    rw [hcreate] at hok
    cases hok
  | ok made =>
    obtain ⟨number, opened⟩ := made
    have hopen := FileSystem.canOpen_iff.mpr ⟨number, opened, hcreate⟩
    have hreplaced := (FileSystem.opened_of_create hcreate).replaced
    dsimp only
    cases hshortage : world.shortage with
    | none =>
      have htakes : world.Takes bytes := by
        intro room failure h
        rw [hshortage] at h
        cases h
      rw [accept, hshortage]
      exact ⟨_, _, rfl, .whole ⟨hopen, htakes⟩ (hreplaced bytes)⟩
    | some limit =>
      obtain ⟨room, failure⟩ := limit
      rw [accept, hshortage]
      dsimp only
      split
      · rename_i hshort
        refine ⟨_, _, rfl, .broken failure hopen (fun htakes => ?_) hshort (hreplaced _)⟩
        exact absurd hshort (Nat.not_lt.mpr (htakes room failure hshortage))
      · rename_i hroom
        refine ⟨_, _, rfl, .whole ⟨hopen, fun room' failure' h => ?_⟩ (hreplaced bytes)⟩
        rw [hshortage] at h
        cases h
        exact Nat.le_of_not_lt hroom

theorem Wrote.canWrite_iff (h : world.Wrote name bytes result after) :
    world.CanWrite name bytes ↔ result = .ok () := by
  cases h with
  | whole hcan _ => exact ⟨fun _ => rfl, fun _ => hcan⟩
  | refused failure hopen =>
    refine ⟨fun hcan => absurd hcan.1 hopen, fun hok => ?_⟩
    cases hok
  | broken failure _ htakes =>
    refine ⟨fun hcan => absurd hcan.2 htakes, fun hok => ?_⟩
    cases hok

/-- A write changes no file but the one of its name. -/
theorem Wrote.changed (h : world.Wrote name bytes result after) {path : Path}
    (hchanged : after.fileAt? path ≠ world.files.fileAt? path) : after.StandsAt name path := by
  by_contra hother
  cases h with
  | whole _ hreplaced => exact hchanged (hreplaced.others path hother)
  | refused _ _ => exact hchanged rfl
  | broken _ _ _ _ hreplaced => exact hchanged (hreplaced.others path hother)

theorem Wrote.replaced (h : world.Wrote name bytes result after)
    (hcan : world.CanWrite name bytes) : world.files.Replaced after name bytes := by
  cases h with
  | whole _ hreplaced => exact hreplaced
  | refused _ hclosed => exact absurd hcan.1 hclosed
  | broken _ _ hshort => exact absurd hcan.2 hshort

theorem Wrote.unchanged (h : world.Wrote name bytes result after)
    (hclosed : ¬ world.files.CanOpen name) : after = world.files := by
  cases h with
  | whole hcan _ => exact absurd hcan.1 hclosed
  | refused _ _ => rfl
  | broken _ hopen => exact absurd hopen hclosed

theorem Wrote.cut (h : world.Wrote name bytes result after) (hopen : world.files.CanOpen name)
    (hshort : ¬ world.Takes bytes) :
    ∃ n < bytes.length, world.files.Replaced after name (bytes.take n) := by
  cases h with
  | whole hcan _ => exact absurd hcan.2 hshort
  | refused _ hclosed => exact absurd hopen hclosed
  | broken _ _ _ hlt hreplaced => exact ⟨_, hlt, hreplaced⟩

end World

end UniversalMachine.CommandLine
