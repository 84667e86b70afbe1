import Aegis.Refinement.Batches
import Aegis.Refinement.Encodings
import Aegis.Refinement.Entries
import Aegis.Refinement.Lines

/-!
Owns the replacement of one policy by another through the control endpoints.
Writing the lines of the listed keys to the deleting endpoints empties the
lists, and writing the lines of the keys of a saved policy to the adding
endpoints rebuilds its lists in their order. No write of either kind fails.

Does not own: how lines are taken from a listing, or the stored hashes, which
an addition computes anew.
-/

namespace Aegis.Refinement

open Aegis.Foundation
open Aegis.Kernel
open Aegis.Policy
open Aegis.Control

/-! ### One list -/

section OneList

variable {Entry Key : Type} {key : Entry → Key} {registry : Registry Entry} {hit : Entry → Bool}
variable {wanted : Key}

/-- The list holds these keys in this order. -/
structure ListsKeys (key : Entry → Key) (registry : Registry Entry) (keys : List Key) : Prop where
  keys : registry.entries.map key = keys
  counted : registry.Counted

theorem ListsKeys.add {done : List Key} (lists : ListsKeys key registry done)
    (exact : Registry.HitsKey key hit wanted) {max : Nat} (room : done.length < max)
    (fresh : wanted ∉ done) (entry : Entry) (keyed : key entry = wanted) (record : LogRecord) :
    (listAdd max hit (some (entry, record)) registry).ret = 0 ∧
      ListsKeys key (listAdd max hit (some (entry, record)) registry).list (done ++ [wanted]) := by
  obtain ⟨rfl, counted⟩ := lists
  have admitted : registry.admission max hit = .admitted := by
    apply Registry.admission_eq_admitted.mpr
    constructor
    · unfold Registry.Counted at counted
      rw [List.length_map] at room
      omega
    · rw [← Bool.not_eq_true, Registry.listed_iff_mem_keys exact]
      exact fresh
  unfold listAdd
  rw [admitted]
  refine ⟨rfl, ?_, counted.linkTail entry⟩
  rw [Registry.linkTail_entries, List.map_append, List.map_singleton, keyed]

theorem ListsKeys.del {rest : List Key} (lists : ListsKeys key registry (wanted :: rest))
    (exact : Registry.HitsKey key hit wanted) (record : LogRecord) :
    (listDel hit record registry).ret = 0 ∧
      ListsKeys key (listDel hit record registry).list rest := by
  obtain ⟨keys, counted⟩ := lists
  obtain ⟨entry, others, split, isWanted, later⟩ := List.map_eq_cons_iff.mp keys
  have hits : hit entry = true := (exact entry).mpr isWanted
  have present : registry.listed hit = true :=
    Registry.listed_iff.mpr ⟨entry, by simp [split], hits⟩
  unfold listDel
  rw [if_pos present]
  refine ⟨rfl, ?_, counted.unlinkFirst present⟩
  rw [Registry.unlinkFirst_entries, split, List.eraseP_cons_of_pos hits]
  exact later

end OneList

/-! ### One write -/

/-- The writer may change policy, and every allocation succeeds. -/
structure Served (env : ControlEnv) : Prop where
  capable : env.capable = true
  copied : env.copyFault = false
  buffer : env.kmallocBuf = true
  entry : env.kmallocEntry = true
  file : env.fileAdd.kmalloc.isSome = true

theorem Served.delivered {env : ControlEnv} (served : Served env) (endpoint : Endpoint) :
    Delivered env endpoint :=
  ⟨served.capable, fun _ => served.buffer, served.copied⟩

/-- The write that adds the key or deletes it. -/
def keyWrite (env : ControlEnv) (adds : Bool) (key : PolicyKey) : Operation :=
  .write env (key.endpoint adds) key.line

/-- The keys of the three lists, in their order. -/
structure KeyLists where
  files : List PathKey
  procs : List (CommKey × Int)
  syscalls : List Int

def keyLists (policy : PolicyState) : KeyLists where
  files := policy.files.entries.map AegisProtectedFile.key
  procs := policy.procs.entries.map AegisProtectedProc.key
  syscalls := policy.syscalls.entries.map AegisBlockedSyscall.syscallNr

/-- A new key at the end of its list, or the first key of its list removed. -/
inductive KeyMove : Bool → PolicyKey → KeyLists → KeyLists → Prop where
  | addFile {path files procs syscalls} (room : files.length < aegisMaxProtectedFiles)
      (fresh : path ∉ files) :
      KeyMove true (.file path) ⟨files, procs, syscalls⟩ ⟨files ++ [path], procs, syscalls⟩
  | addProc {comm pid files procs syscalls} (room : procs.length < aegisMaxProtectedProcs)
      (fresh : (comm, pid) ∉ procs) :
      KeyMove true (.proc comm pid) ⟨files, procs, syscalls⟩
        ⟨files, procs ++ [(comm, pid)], syscalls⟩
  | addSyscall {nr files procs syscalls} (room : syscalls.length < aegisMaxBlockedSyscalls)
      (fresh : nr ∉ syscalls) :
      KeyMove true (.syscall nr) ⟨files, procs, syscalls⟩ ⟨files, procs, syscalls ++ [nr]⟩
  | delFile {path files procs syscalls} :
      KeyMove false (.file path) ⟨path :: files, procs, syscalls⟩ ⟨files, procs, syscalls⟩
  | delProc {comm pid files procs syscalls} :
      KeyMove false (.proc comm pid) ⟨files, (comm, pid) :: procs, syscalls⟩
        ⟨files, procs, syscalls⟩
  | delSyscall {nr files procs syscalls} :
      KeyMove false (.syscall nr) ⟨files, procs, nr :: syscalls⟩ ⟨files, procs, syscalls⟩

/-- The configuration, and the keys of the three lists. -/
structure Holds (cfg : AegisConfig) (lists : KeyLists) (policy : PolicyState) : Prop where
  cfg : policy.cfg = cfg
  files : ListsKeys AegisProtectedFile.key policy.files lists.files
  procs : ListsKeys AegisProtectedProc.key policy.procs lists.procs
  syscalls : ListsKeys AegisBlockedSyscall.syscallNr policy.syscalls lists.syscalls

section Writes

variable (shash : Shash) {env : ControlEnv} (served : Served env) {cfg : AegisConfig}
variable {before after : KeyLists} {adds : Bool} {key : PolicyKey}

include served

/-- A command of the key performs the move. -/
theorem Holds.perform {policy : PolicyState} (holds : Holds cfg before policy)
    (move : KeyMove adds key before after) {command : Command} (isKey : commandKey command = key)
    (isAdds : commandAdds command = adds) (len : Nat) :
    (command.perform shash env len policy).ret = len ∧
      Holds cfg after (command.perform shash env len policy).policy := by
  subst isKey
  obtain ⟨sameCfg, files, procs, syscalls⟩ := holds
  cases command with
  | addFile path nonempty =>
      cases isAdds
      cases move with
      | addFile room fresh =>
          obtain ⟨junk, allocated⟩ := Option.isSome_iff_exists.mp served.file
          have keyed : (fileEntry path.val (initialHash shash env.fileAdd path.val junk)).key =
              path := fileSpec.key_make path _
          have added := files.add (filePathHit_hitsKey path) room fresh _ keyed
            (.protectedFileAdded path.val
              (fileEntry path.val (initialHash shash env.fileAdd path.val junk)).hashValid)
          simp only [Command.perform, aegisProtectedFileAdd, allocated, Option.map_some, added.1]
          exact ⟨rfl, sameCfg, added.2, procs, syscalls⟩
  | delFile path nonempty =>
      cases isAdds
      cases move with
      | delFile =>
          have removed := files.del (filePathHit_hitsKey path) (.protectedFileRemoved path.val)
          simp only [Command.perform, aegisProtectedFileDel, removed.1]
          exact ⟨rfl, sameCfg, removed.2, procs, syscalls⟩
  | addProc comm pid =>
      cases isAdds
      cases move with
      | addProc room fresh =>
          have keyed : (procEntry comm.val pid).key = (comm, pid) :=
            procSpec.key_make (comm, pid) ()
          have added := procs.add (procHit_hitsKey comm pid) room fresh _ keyed
            (.protectedProcessAdded comm.val pid)
          simp only [Command.perform, aegisProtectProcessAdd, served.entry, if_true, added.1]
          exact ⟨rfl, sameCfg, files, added.2, syscalls⟩
  | delProc comm pid =>
      cases isAdds
      cases move with
      | delProc =>
          have removed := procs.del (procHit_hitsKey comm pid)
            (.protectedProcessRemoved comm.val pid)
          simp only [Command.perform, aegisProtectProcessDel, removed.1]
          exact ⟨rfl, sameCfg, files, removed.2, syscalls⟩
  | addSyscall nr =>
      cases isAdds
      cases move with
      | addSyscall room fresh =>
          have nonneg : ¬ nr.val < 0 := Int.not_lt.mpr nr.property
          have added := syscalls.add (syscallHit_hitsKey nr.val) room fresh ⟨nr.val⟩ rfl
            (.blockedSyscallAdded nr.val)
          simp only [Command.perform, aegisSyscallBlockAdd, nonneg, if_false, served.entry, if_true,
            added.1]
          exact ⟨rfl, sameCfg, files, procs, added.2⟩
  | delSyscall nr =>
      cases isAdds
      cases move with
      | delSyscall =>
          have removed := syscalls.del (syscallHit_hitsKey nr.val) (.blockedSyscallRemoved nr.val)
          simp only [Command.perform, aegisSyscallBlockDel, removed.1]
          exact ⟨rfl, sameCfg, files, procs, removed.2⟩

theorem Holds.step {state : KernelState} (holds : Holds cfg before state.policy)
    (writable : key.Writable) (move : KeyMove adds key before after) :
    (keyWrite env adds key).Returns shash state ∧
      Holds cfg after ((kernel shash).step state (keyWrite env adds key)).1.policy := by
  obtain ⟨command, parsed, isKey, isAdds⟩ :=
    key.parse_line writable adds (served.delivered (key.endpoint adds))
  have written : aectlWrite shash env (key.endpoint adds) key.line state.policy =
      command.perform shash env key.line.length state.policy := by
    rw [aectlWrite_eq, parsed]
  obtain ⟨returned, next⟩ := holds.perform shash served move isKey isAdds key.line.length
  rw [← written] at returned next
  exact ⟨returned, next⟩

end Writes

/-! ### Runs of writes -/

/-- All keys: files, then processes, then system calls. -/
def KeyLists.keys (lists : KeyLists) : List PolicyKey :=
  lists.files.map .file ++
    (lists.procs.map (fun key => .proc key.1 key.2) ++ lists.syscalls.map .syscall)

/-- One write for each key. -/
def keyWrites (envs : PolicyKey → ControlEnv) (adds : Bool) (keys : List PolicyKey) :
    List Operation :=
  keys.map fun key => keyWrite (envs key) adds key

/-- Every write of the run returns its length. -/
def AllReturn (shash : Shash) (state : KernelState) (writes : List Operation) : Prop :=
  (kernel shash).Meets (fun state operation => operation.Returns shash state) state writes

section Runs

variable (shash : Shash) {envs : PolicyKey → ControlEnv} (served : ∀ key, Served (envs key))
variable {cfg : AegisConfig} {lists : KeyLists} (writable : ∀ key ∈ lists.keys, key.Writable)
variable {state : KernelState}

include served writable

/-- Writing every key to its deleting endpoint empties the lists. -/
theorem Holds.clear (holds : Holds cfg lists state.policy) :
    AllReturn shash state (keyWrites envs false lists.keys) ∧
      Holds cfg ⟨[], [], []⟩
        ((kernel shash).run state (keyWrites envs false lists.keys)).1.policy := by
  obtain ⟨files, procs, syscalls⟩ := lists
  simp only [KeyLists.keys, List.mem_append, List.mem_map] at writable
  obtain ⟨filesReturn, filesGone⟩ := Transducer.meets_of_removes (kernel shash)
    (fun state operation => operation.Returns shash state)
    (fun state rest => Holds cfg ⟨rest, procs, syscalls⟩ state.policy)
    (fun path => keyWrite (envs (.file path)) false (.file path))
    (fun state path rest member view =>
      view.step shash (served _) (writable _ (Or.inl ⟨path, member, rfl⟩)) .delFile) holds
  obtain ⟨procsReturn, procsGone⟩ := Transducer.meets_of_removes (kernel shash)
    (fun state operation => operation.Returns shash state)
    (fun state rest => Holds cfg ⟨[], rest, syscalls⟩ state.policy)
    (fun key => keyWrite (envs (.proc key.1 key.2)) false (.proc key.1 key.2))
    (fun state key rest member view =>
      view.step shash (served _) (writable _ (Or.inr (Or.inl ⟨key, member, rfl⟩))) .delProc)
    filesGone
  obtain ⟨syscallsReturn, syscallsGone⟩ := Transducer.meets_of_removes (kernel shash)
    (fun state operation => operation.Returns shash state)
    (fun state rest => Holds cfg ⟨[], [], rest⟩ state.policy)
    (fun nr => keyWrite (envs (.syscall nr)) false (.syscall nr))
    (fun state nr rest member view =>
      view.step shash (served _) (writable _ (Or.inr (Or.inr ⟨nr, member, rfl⟩))) .delSyscall)
    procsGone
  simp only [AllReturn, KeyLists.keys, keyWrites, List.map_append, List.map_map,
    Function.comp_def, Transducer.meets_append, Transducer.run_append_fst]
  exact ⟨⟨filesReturn, procsReturn, syscallsReturn⟩, syscallsGone⟩

end Runs

/-- Lists of distinct keys with a line, within the capacities. -/
structure KeyLists.Sound (lists : KeyLists) : Prop where
  writable : ∀ key ∈ lists.keys, key.Writable
  files : lists.files.Nodup ∧ lists.files.length ≤ aegisMaxProtectedFiles
  procs : lists.procs.Nodup ∧ lists.procs.length ≤ aegisMaxProtectedProcs
  syscalls : lists.syscalls.Nodup ∧ lists.syscalls.length ≤ aegisMaxBlockedSyscalls

/-- An item between two parts of a list is not in the first part, which is
shorter than the list. -/
theorem fresh_of_split {Item : Type} {items done rest : List Item} {item : Item} {max : Nat}
    (sound : items.Nodup ∧ items.length ≤ max) (split : done ++ item :: rest = items) :
    item ∈ items ∧ item ∉ done ∧ done.length < max := by
  obtain ⟨distinct, bounded⟩ := sound
  subst split
  refine ⟨by simp, fun member => ?_, ?_⟩
  · exact (List.disjoint_of_nodup_append distinct) member (by simp)
  · rw [List.length_append, List.length_cons] at bounded
    omega

/-- Writing every key to its adding endpoint fills empty lists. -/
theorem Holds.restore (shash : Shash) {envs : PolicyKey → ControlEnv}
    (served : ∀ key, Served (envs key)) {cfg : AegisConfig} {lists : KeyLists}
    (sound : lists.Sound) {state : KernelState} (empty : Holds cfg ⟨[], [], []⟩ state.policy) :
    AllReturn shash state (keyWrites envs true lists.keys) ∧
      Holds cfg lists ((kernel shash).run state (keyWrites envs true lists.keys)).1.policy := by
  obtain ⟨files, procs, syscalls⟩ := lists
  obtain ⟨writable, filesSound, procsSound, syscallsSound⟩ := sound
  simp only [KeyLists.keys, List.mem_append, List.mem_map] at writable
  obtain ⟨filesReturn, filesAdded⟩ := Transducer.meets_of_appends (kernel shash)
    (fun state operation => operation.Returns shash state)
    (fun state done => Holds cfg ⟨done, [], []⟩ state.policy)
    (fun path => keyWrite (envs (.file path)) true (.file path))
    (fun state done path rest split view => by
      obtain ⟨member, fresh, room⟩ := fresh_of_split filesSound split
      exact view.step shash (served _) (writable _ (Or.inl ⟨path, member, rfl⟩))
        (.addFile room fresh))
    (List.nil_append files) empty
  obtain ⟨procsReturn, procsAdded⟩ := Transducer.meets_of_appends (kernel shash)
    (fun state operation => operation.Returns shash state)
    (fun state done => Holds cfg ⟨files, done, []⟩ state.policy)
    (fun key => keyWrite (envs (.proc key.1 key.2)) true (.proc key.1 key.2))
    (fun state done key rest split view => by
      obtain ⟨member, fresh, room⟩ := fresh_of_split procsSound split
      exact view.step shash (served _) (writable _ (Or.inr (Or.inl ⟨key, member, rfl⟩)))
        (.addProc room fresh))
    (List.nil_append procs) filesAdded
  obtain ⟨syscallsReturn, syscallsAdded⟩ := Transducer.meets_of_appends (kernel shash)
    (fun state operation => operation.Returns shash state)
    (fun state done => Holds cfg ⟨files, procs, done⟩ state.policy)
    (fun nr => keyWrite (envs (.syscall nr)) true (.syscall nr))
    (fun state done nr rest split view => by
      obtain ⟨member, fresh, room⟩ := fresh_of_split syscallsSound split
      exact view.step shash (served _) (writable _ (Or.inr (Or.inr ⟨nr, member, rfl⟩)))
        (.addSyscall room fresh))
    (List.nil_append syscalls) procsAdded
  simp only [AllReturn, KeyLists.keys, keyWrites, List.map_append, List.map_map,
    Function.comp_def, Transducer.meets_append, Transducer.run_append_fst]
  exact ⟨⟨filesReturn, procsReturn, syscallsReturn⟩, syscallsAdded⟩

/-! ### Reachable policies -/

theorem mem_keys_iff {policy : PolicyState} {key : PolicyKey} :
    key ∈ (keyLists policy).keys ↔ key.Listed policy := by
  simp only [KeyLists.keys, keyLists, List.mem_append, List.mem_map]
  cases key with
  | file path => simp [PolicyKey.Listed]
  | proc comm pid => simp [PolicyKey.Listed, Prod.ext_iff]
  | syscall nr => simp [PolicyKey.Listed]

section Reachable

variable {shash : Shash} {policy : PolicyState} (reached : Reachable shash policy)

include reached

theorem keyLists_sound : (keyLists policy).Sound := by
  have wellFormed := wellFormed_of_reachable reached
  have expressible := expressible_of_reachable reached
  refine ⟨fun key member => expressible.writable key (mem_keys_iff.mp member), ?_, ?_, ?_⟩
  · exact ⟨expressible.distinct.files, by simpa [keyLists] using wellFormed.files.bounded⟩
  · exact ⟨expressible.distinct.procs, by simpa [keyLists] using wellFormed.procs.bounded⟩
  · exact ⟨expressible.distinct.syscalls, by simpa [keyLists] using wellFormed.syscalls.bounded⟩

theorem holds_keyLists : Holds policy.cfg (keyLists policy) policy := by
  have wellFormed := wellFormed_of_reachable reached
  exact ⟨rfl, ⟨rfl, wellFormed.files.counted⟩, ⟨rfl, wellFormed.procs.counted⟩,
    ⟨rfl, wellFormed.syscalls.counted⟩⟩

end Reachable

/-- Replace the lists of one reachable policy by those of another: delete every
listed key by its line, then add every saved key by its line. Every write
returns its length, the configuration stays, the lists hold the saved keys in
the saved order, and what is denied is what the saved lists deny under that
configuration. -/
theorem lists_replaced_by_lines (shash : Shash) (current : KernelState) (saved : PolicyState)
    (envs : PolicyKey → ControlEnv) (currentReached : Reachable shash current.policy)
    (savedReached : Reachable shash saved) (served : ∀ key, Served (envs key)) :
    let writes := keyWrites envs false (keyLists current.policy).keys ++
      keyWrites envs true (keyLists saved).keys
    let final := ((kernel shash).run current writes).1.policy
    AllReturn shash current writes ∧ final.cfg = current.policy.cfg ∧
      keyLists final = keyLists saved ∧
      ∀ env request, (runHook final env request).ret ≠ 0 ↔
        (runHook { saved with cfg := current.policy.cfg } env request).ret ≠ 0 := by
  intro writes final
  obtain ⟨deleted, empty⟩ := (holds_keyLists currentReached).clear shash served
    (keyLists_sound currentReached).writable
  obtain ⟨added, restored⟩ := empty.restore shash served (keyLists_sound savedReached)
  have holds : Holds current.policy.cfg (keyLists saved) final := by
    rw [← Transducer.run_append_fst] at restored
    exact restored
  have sameLists : keyLists final = keyLists saved := by
    show KeyLists.mk _ _ _ = _
    rw [holds.files.keys, holds.procs.keys, holds.syscalls.keys]
  refine ⟨Transducer.meets_append.mpr ⟨deleted, added⟩, holds.cfg, sameLists, ?_⟩
  intro env request
  have counted : final.files.Counted := holds.files.counted
  have savedCounted : ({ saved with cfg := current.policy.cfg } : PolicyState).files.Counted :=
    (wellFormed_of_reachable savedReached).files.counted
  have listed : ∀ key : PolicyKey, key.Listed final ↔
      key.Listed { saved with cfg := current.policy.cfg } := by
    intro key
    rw [← mem_keys_iff, ← mem_keys_iff, sameLists]
    rfl
  rw [denied_iff_alone counted, denied_iff_alone savedCounted, holds.cfg]
  simp only [listed]

/-- From the lists of boot to those with a process of the empty name. -/
theorem lists_replaced_by_lines_boot :
    keyLists ((kernel sha256Shash).run .boot
        (keyWrites (fun _ => administrator) false
            (keyLists (Policy.boot (fun _ => true) (fun _ => true))).keys ++
          keyWrites (fun _ => administrator) true
            (keyLists (afterWriting .protectedProcsAdd [CString.ascii " "])).keys)).1.policy =
      keyLists (afterWriting .protectedProcsAdd [CString.ascii " "]) :=
  (lists_replaced_by_lines sha256Shash .boot (afterWriting .protectedProcsAdd [CString.ascii " "])
    (fun _ => administrator) ⟨fun _ => true, fun _ => true, [], by simp, rfl⟩
    (afterWriting_reachableBy fun _ _ => trivial) (fun _ => ⟨rfl, rfl, rfl, rfl, rfl⟩)).2.2.1

end Aegis.Refinement
