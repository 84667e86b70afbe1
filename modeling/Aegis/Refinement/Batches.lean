import Mathlib.Data.List.Perm.Basic
import Aegis.Refinement.Lines
import Aegis.Refinement.Monotone

/-!
Owns batches of control writes that only add. If every write of a batch returns
its length, then so does every write of every reordering of the batch, and both
orders end with the same configuration and sets, so with the same verdicts.

The argument is made on the abstract policy, where two additions that succeed
one after the other succeed in the other order too. Every state that a run
reaches has an abstract policy behind it, and a write that returns its length
has found its memory, so nothing is assumed about allocations.

Does not own: batches that remove.
-/

namespace Aegis.Refinement

open Aegis.Foundation
open Aegis.Kernel
open Aegis.Policy
open Aegis.Control

/-! ### Two additions -/

section Sets

variable {Key : Type} [DecidableEq Key] {max : Nat} {first second : Key} {keys : Finset Key}

theorem setAdd_eq_zero_iff :
    (setAdd max first keys).1 = 0 ↔ keys.card < max ∧ first ∉ keys := by
  unfold setAdd
  split_ifs with full present
  · exact iff_of_false Errno.enospc.ret_ne_zero fun room => by omega
  · exact iff_of_false Errno.eexist.ret_ne_zero fun room => room.2 present
  · exact iff_of_true rfl ⟨by omega, present⟩

theorem setAdd_snd_of_eq_zero (added : (setAdd max first keys).1 = 0) :
    (setAdd max first keys).2 = insert first keys := by
  obtain ⟨room, absent⟩ := setAdd_eq_zero_iff.mp added
  rw [setAdd, if_neg (by omega), if_neg absent]

/-- Two keys that are added one after the other can be added in the other
order. -/
theorem setAdd_swap (addedFirst : (setAdd max first keys).1 = 0)
    (addedSecond : (setAdd max second (setAdd max first keys).2).1 = 0) :
    (setAdd max second keys).1 = 0 ∧ (setAdd max first (setAdd max second keys).2).1 = 0 ∧
      (setAdd max first (setAdd max second keys).2).2 =
        (setAdd max second (setAdd max first keys).2).2 := by
  have grown := setAdd_snd_of_eq_zero addedFirst
  obtain ⟨room, firstAbsent⟩ := setAdd_eq_zero_iff.mp addedFirst
  rw [grown, setAdd_eq_zero_iff, Finset.card_insert_of_notMem firstAbsent,
    Finset.mem_insert, not_or] at addedSecond
  obtain ⟨moreRoom, different, secondAbsent⟩ := addedSecond
  have swapped : (setAdd max second keys).1 = 0 := setAdd_eq_zero_iff.mpr ⟨room, secondAbsent⟩
  have other := setAdd_snd_of_eq_zero swapped
  have last : (setAdd max first (insert second keys)).1 = 0 := by
    rw [setAdd_eq_zero_iff, Finset.card_insert_of_notMem secondAbsent, Finset.mem_insert, not_or]
    exact ⟨moreRoom, Ne.symm different, firstAbsent⟩
  have originalLast : (setAdd max second (insert first keys)).1 = 0 := by
    rw [setAdd_eq_zero_iff, Finset.card_insert_of_notMem firstAbsent, Finset.mem_insert, not_or]
    exact ⟨moreRoom, different, secondAbsent⟩
  rw [grown, other]
  refine ⟨swapped, last, ?_⟩
  rw [setAdd_snd_of_eq_zero last, setAdd_snd_of_eq_zero originalLast, Finset.insert_comm]

theorem setAdd_fst_nonpos : (setAdd max first keys).1 ≤ 0 := by
  unfold setAdd
  split_ifs
  · exact Int.le_of_lt Errno.enospc.ret_neg
  · exact Int.le_of_lt Errno.eexist.ret_neg
  · exact Int.le_refl 0

theorem setDel_fst_nonpos : (setDel first keys).1 ≤ 0 := by
  unfold setDel
  split_ifs
  · exact Int.le_refl 0
  · exact Int.le_of_lt Errno.enoent.ret_neg

end Sets

/-! ### Batches of the abstract policy -/

theorem SetPolicy.perform_fst_nonpos (sets : SetPolicy) (command : Command) :
    (sets.perform command).1 ≤ 0 := by
  cases command with
  | addFile path _ => exact setAdd_fst_nonpos
  | delFile path _ => exact setDel_fst_nonpos
  | addProc comm pid => exact setAdd_fst_nonpos
  | delProc comm pid => exact setDel_fst_nonpos
  | addSyscall nr => exact setAdd_fst_nonpos
  | delSyscall nr => exact setDel_fst_nonpos

/-- The command that the operation asks for. -/
def Operation.command : Operation → Option Command
  | .write env endpoint ubuf => (parseWrite env endpoint ubuf).toOption
  | _ => none

theorem Operation.command_write_eq_some {env : ControlEnv} {endpoint : Endpoint}
    {ubuf : List UInt8} {command : Command} :
    (Operation.write env endpoint ubuf).command = some command ↔
      parseWrite env endpoint ubuf = .ok command := by
  cases parsed : parseWrite env endpoint ubuf <;> simp [Operation.command, parsed, Except.toOption]

/-- The operation asks to add an entry, if it is read at all. -/
def Operation.OnlyAdds : Operation → Prop
  | .write _ endpoint _ => Endpoint.adds endpoint = true
  | _ => False

/-- The policy after a batch in which every command returns zero. -/
def SetPolicy.performAll (sets : SetPolicy) : List Operation → Option SetPolicy
  | [] => some sets
  | operation :: rest =>
      operation.command.bind fun command =>
        if (sets.perform command).1 = 0 then performAll (sets.perform command).2 rest else none

theorem SetPolicy.performAll_cons {sets final : SetPolicy} {operation : Operation}
    {rest : List Operation} :
    sets.performAll (operation :: rest) = some final ↔
      ∃ command, operation.command = some command ∧ (sets.perform command).1 = 0 ∧
        (sets.perform command).2.performAll rest = some final := by
  simp only [performAll, Option.bind_eq_some_iff, Option.ite_none_right_eq_some]

/-- Two commands that add. -/
theorem SetPolicy.perform_swap {sets : SetPolicy} {first second : Command}
    (firstAdds : Endpoint.adds first.endpoint = true)
    (secondAdds : Endpoint.adds second.endpoint = true)
    (addedFirst : (sets.perform first).1 = 0)
    (addedSecond : ((sets.perform first).2.perform second).1 = 0) :
    (sets.perform second).1 = 0 ∧ ((sets.perform second).2.perform first).1 = 0 ∧
      ((sets.perform second).2.perform first).2 = ((sets.perform first).2.perform second).2 := by
  cases first with
  | addFile path _ =>
      cases second with
      | addFile other _ =>
          obtain ⟨swapped, last, same⟩ := setAdd_swap addedFirst addedSecond
          exact ⟨swapped, last, SetPolicy.ext rfl same rfl rfl⟩
      | addProc comm pid => exact ⟨addedSecond, addedFirst, rfl⟩
      | addSyscall nr => exact ⟨addedSecond, addedFirst, rfl⟩
      | _ => cases secondAdds
  | addProc comm pid =>
      cases second with
      | addFile path _ => exact ⟨addedSecond, addedFirst, rfl⟩
      | addProc other otherPid =>
          obtain ⟨swapped, last, same⟩ := setAdd_swap addedFirst addedSecond
          exact ⟨swapped, last, SetPolicy.ext rfl rfl same rfl⟩
      | addSyscall nr => exact ⟨addedSecond, addedFirst, rfl⟩
      | _ => cases secondAdds
  | addSyscall nr =>
      cases second with
      | addFile path _ => exact ⟨addedSecond, addedFirst, rfl⟩
      | addProc comm pid => exact ⟨addedSecond, addedFirst, rfl⟩
      | addSyscall other =>
          obtain ⟨swapped, last, same⟩ := setAdd_swap addedFirst addedSecond
          exact ⟨swapped, last, SetPolicy.ext rfl rfl rfl same⟩
      | _ => cases secondAdds
  | _ => cases firstAdds

theorem Operation.OnlyAdds.command_adds {operation : Operation} (adds : operation.OnlyAdds)
    {command : Command} (isCommand : operation.command = some command) :
    Endpoint.adds command.endpoint = true := by
  cases operation with
  | write env endpoint ubuf =>
      have parsed := Operation.command_write_eq_some.mp isCommand
      rw [(parseWrite_eq_ok_iff.mp parsed).2.endpoint_eq]
      exact adds
  | sysctl knob result => cases adds
  | hook env request => cases adds

/-- Every order of a batch of additions gives the same policy. -/
theorem SetPolicy.performAll_perm {batch reordered : List Operation}
    (permutation : batch.Perm reordered) (adds : ∀ operation ∈ batch, operation.OnlyAdds)
    {sets final : SetPolicy} (performed : sets.performAll batch = some final) :
    sets.performAll reordered = some final := by
  induction permutation generalizing sets with
  | nil => exact performed
  | cons operation _ inductionHypothesis =>
      obtain ⟨command, isCommand, zero, later⟩ := performAll_cons.mp performed
      exact performAll_cons.mpr ⟨command, isCommand, zero,
        inductionHypothesis (fun other member => adds other (List.mem_cons_of_mem _ member)) later⟩
  | swap second first rest =>
      obtain ⟨command, isCommand, zero, middle⟩ := performAll_cons.mp performed
      obtain ⟨other, isOther, otherZero, later⟩ := performAll_cons.mp middle
      have commandAdds := (adds _ (by simp)).command_adds isCommand
      have otherAdds := (adds _ (by simp)).command_adds isOther
      obtain ⟨swapped, last, same⟩ := perform_swap commandAdds otherAdds zero otherZero
      refine performAll_cons.mpr ⟨other, isOther, swapped, performAll_cons.mpr
        ⟨command, isCommand, last, ?_⟩⟩
      rw [same]
      exact later
  | trans first _ firstHypothesis secondHypothesis =>
      exact secondHypothesis (fun operation member => adds operation (first.mem_iff.mpr member))
        (firstHypothesis adds performed)

/-! ### The sets behind a reachable state -/

theorem exists_represented {shash : Shash} {policy : PolicyState}
    (reached : Reachable shash policy) : ∃ sets, Represented policy sets := by
  obtain ⟨files, procs, syscalls⟩ := wellFormed_of_reachable reached
  obtain ⟨distinct, writable⟩ := expressible_of_reachable reached
  -- A list without duplicates is as long as its set is large.
  have card : ∀ {Entry Key : Type} [DecidableEq Key] {key : Entry → Key} {max : Nat}
      {entries : List Entry}, entries.length ≤ max → (entries.map key).toFinset.card ≤ max :=
    fun bounded => (List.toFinset_card_le _).trans (by simpa using bounded)
  refine ⟨{
    cfg := policy.cfg
    files := PolicyState.pathKeys policy
    procs := PolicyState.procKeys policy
    syscalls := PolicyState.syscallKeys policy
    files_nonempty := fun path member => ?_
    files_card := card files.bounded
    procs_card := card procs.bounded
    syscalls_nonneg := fun nr member => ?_
    syscalls_card := card syscalls.bounded }, rfl, ?_, ?_, ?_⟩
  · have path_ne_nil := (writable (.file path) (List.mem_toFinset.mp member)).nonempty
    exact List.length_pos_iff.mpr path_ne_nil
  · exact (writable (.syscall nr) (List.mem_toFinset.mp member)).nonneg
  · exact ⟨distinct.files, files.counted, files.bounded, rfl⟩
  · exact ⟨distinct.procs, procs.counted, procs.bounded, rfl⟩
  · exact ⟨distinct.syscalls, syscalls.counted, syscalls.bounded, rfl⟩

/-- A run from a boot ends in a state that represents some sets, also when
allocations fail. -/
theorem exists_refines (shash : Shash) (procAlloc : Fin 3 → Bool) (syscallAlloc : Fin 5 → Bool)
    (operations : List Operation) :
    ∃ sets, Refines ((kernel shash).run (.bootWith procAlloc syscallAlloc) operations).1 sets := by
  have each : ∀ operation ∈ operations, (fun _ : Operation => True) operation :=
    fun _ _ => trivial
  obtain ⟨sets, represented⟩ :=
    exists_represented (reachable_run shash procAlloc syscallAlloc operations)
  refine ⟨sets, represented, ?_⟩
  exact Transducer.run_of_forall
    (fun state : KernelState => Synced state.mirrors state.policy.cfg)
    (fun _ operation _ synced => synced_step shash operation synced) synced_boot each

/-! ### Batches of the module -/

/-- The write returns its length in this state. -/
def Operation.Returns (shash : Shash) (state : KernelState) (operation : Operation) : Prop :=
  match operation with
  | .write _ _ ubuf => ((kernel shash).step state operation).2 = ubuf.length
  | _ => False

instance (shash : Shash) (state : KernelState) :
    ∀ operation : Operation, Decidable (operation.Returns shash state)
  | .write _ _ _ => inferInstanceAs (Decidable (_ = _))
  | .sysctl _ _ => inferInstanceAs (Decidable False)
  | .hook _ _ => inferInstanceAs (Decidable False)

/-- If the operation is a write, its command finds memory. -/
def Operation.Fed : Operation → Prop
  | .write env endpoint ubuf =>
      ∀ command, parseWrite env endpoint ubuf = .ok command → Command.Supplied env command
  | _ => True

/-- A command that returns the length has found its memory. -/
theorem Command.supplied_of_ret {shash : Shash} {env : ControlEnv} {len : Nat}
    {policy : PolicyState} {command : Command}
    (returned : (command.perform shash env len policy).ret = len) :
    Command.Supplied env command := by
  cases command with
  | addFile path nonempty =>
      have zero := ret_eq_zero_of_settles (aegisProtectedFileAdd_settles shash env.fileAdd
        (some path.val) policy.files) returned
      obtain ⟨made, isNew, -⟩ := listAdd_list_of_ret_zero zero
      obtain ⟨junk, allocated, -⟩ := Option.map_eq_some_iff.mp isNew
      exact Option.isSome_iff_exists.mpr ⟨junk, allocated⟩
  | addProc comm pid =>
      have zero := ret_eq_zero_of_settles (aegisProtectProcessAdd_settles env.kmallocEntry
        (some comm.val) pid policy.procs) returned
      obtain ⟨made, isNew, -⟩ := listAdd_list_of_ret_zero zero
      exact (Option.ite_none_right_eq_some.mp isNew).1
  | addSyscall nr =>
      have nonneg : ¬ nr.val < 0 := Int.not_lt.mpr nr.property
      have zero := ret_eq_zero_of_settles (aegisSyscallBlockAdd_settles env.kmallocEntry nr.val
        policy.syscalls) returned
      simp only [aegisSyscallBlockAdd, nonneg, if_false] at zero
      obtain ⟨made, isNew, -⟩ := listAdd_list_of_ret_zero zero
      exact (Option.ite_none_right_eq_some.mp isNew).1
  | _ => trivial

section Module

variable (shash : Shash) {state : KernelState} {sets : SetPolicy}

theorem Operation.Returns.fed {operation : Operation} (returned : operation.Returns shash state) :
    operation.Fed := by
  cases operation with
  | write env endpoint ubuf =>
      intro command parsed
      have written : (aectlWrite shash env endpoint ubuf state.policy).ret = ubuf.length := returned
      rw [aectlWrite_eq, parsed] at written
      exact Command.supplied_of_ret written
  | sysctl knob result => trivial
  | hook env request => trivial

theorem fed_of_meets {batch : List Operation}
    (returned : (kernel shash).Meets (fun state operation => operation.Returns shash state) state
      batch) : ∀ operation ∈ batch, operation.Fed := by
  induction batch generalizing state with
  | nil => simp
  | cons operation rest inductionHypothesis =>
      exact List.forall_mem_cons.mpr ⟨returned.1.fed, inductionHypothesis returned.2⟩

/-- A write returns its length exactly when the sets answer its command with
zero. -/
theorem Refines.returns_iff (refines : Refines state sets) {operation : Operation}
    (fed : operation.Fed) :
    operation.Returns shash state ↔
      ∃ command, operation.command = some command ∧ (sets.perform command).1 = 0 := by
  cases operation with
  | write env endpoint ubuf =>
      have same := (refines.write shash fed).1
      constructor
      · intro returned
        obtain ⟨accepted, command, reads, -⟩ := exists_command_of_ret_eq_length returned
        have parsed := parseWrite_eq_ok_iff.mpr ⟨accepted, reads⟩
        refine ⟨command, Operation.command_write_eq_some.mpr parsed, ?_⟩
        have output : writeResult ubuf.length (sets.perform command).1 = ubuf.length := by
          have answered := same.symm.trans returned
          simpa only [specification, parsed] using answered
        have nonpos := sets.perform_fst_nonpos command
        by_contra nonzero
        rw [writeResult, if_neg nonzero] at output
        omega
      · rintro ⟨command, isCommand, zero⟩
        have parsed := Operation.command_write_eq_some.mp isCommand
        show ((kernel shash).step state (.write env endpoint ubuf)).2 = ubuf.length
        rw [same]
        simp [specification, parsed, writeResult, zero]
  | sysctl knob result => simp [Operation.Returns, Operation.command]
  | hook env request => simp [Operation.Returns, Operation.command]

theorem Refines.step_of_command (refines : Refines state sets) {operation : Operation}
    (fed : operation.Fed) {command : Command} (isCommand : operation.command = some command) :
    Refines ((kernel shash).step state operation).1 (sets.perform command).2 := by
  cases operation with
  | write env endpoint ubuf =>
      have next := (refines.write shash fed).2
      have parsed := Operation.command_write_eq_some.mp isCommand
      simpa only [specification, parsed] using next
  | sysctl knob result => cases isCommand
  | hook env request => cases isCommand

/-- The same for a batch. -/
theorem Refines.all_return_iff (refines : Refines state sets) {batch : List Operation}
    (fed : ∀ operation ∈ batch, operation.Fed) :
    (kernel shash).Meets (fun state operation => operation.Returns shash state) state batch ↔
      ∃ final, sets.performAll batch = some final := by
  induction batch generalizing state sets with
  | nil => exact iff_of_true trivial ⟨sets, rfl⟩
  | cons operation rest inductionHypothesis =>
      obtain ⟨own, later⟩ := List.forall_mem_cons.mp fed
      simp only [Transducer.Meets, refines.returns_iff shash own, SetPolicy.performAll_cons]
      constructor
      · rintro ⟨⟨command, isCommand, zero⟩, meets⟩
        have next := refines.step_of_command shash own isCommand
        obtain ⟨final, performed⟩ := (inductionHypothesis next later).mp meets
        exact ⟨final, command, isCommand, zero, performed⟩
      · rintro ⟨final, command, isCommand, zero, performed⟩
        have next := refines.step_of_command shash own isCommand
        exact ⟨⟨command, isCommand, zero⟩, (inductionHypothesis next later).mpr ⟨final, performed⟩⟩

/-- A batch that the sets perform runs to a state that represents the result. -/
theorem Refines.run_performAll (refines : Refines state sets) {batch : List Operation}
    (fed : ∀ operation ∈ batch, operation.Fed) {final : SetPolicy}
    (performed : sets.performAll batch = some final) :
    Refines ((kernel shash).run state batch).1 final := by
  induction batch generalizing state sets with
  | nil =>
      obtain rfl := Option.some.inj performed
      exact refines
  | cons operation rest inductionHypothesis =>
      obtain ⟨command, isCommand, -, performedRest⟩ := SetPolicy.performAll_cons.mp performed
      obtain ⟨own, later⟩ := List.forall_mem_cons.mp fed
      have next := refines.step_of_command shash own isCommand
      rw [Transducer.run_cons]
      exact inductionHypothesis next later performedRest

end Module

theorem Represented.sameSets {left right : PolicyState} {sets : SetPolicy}
    (leftRepresented : Represented left sets) (rightRepresented : Represented right sets) :
    SameSets left right where
  cfg := leftRepresented.cfg.trans rightRepresented.cfg.symm
  paths := leftRepresented.files.members.trans rightRepresented.files.members.symm
  procs := leftRepresented.procs.members.trans rightRepresented.procs.members.symm
  syscalls := leftRepresented.syscalls.members.trans rightRepresented.syscalls.members.symm

/-- After any run from any boot: if every write of a batch of additions returns
its length, so does every write of every reordering, both end with the same
configuration and sets, and every hook call gives the same verdict. -/
theorem additions_in_any_order (shash : Shash) (procAlloc : Fin 3 → Bool)
    (syscallAlloc : Fin 5 → Bool) (operations batch reordered : List Operation)
    (adds : ∀ operation ∈ batch, operation.OnlyAdds) (permutation : batch.Perm reordered)
    (returned : (kernel shash).Meets (fun state operation => operation.Returns shash state)
      ((kernel shash).run (.bootWith procAlloc syscallAlloc) operations).1 batch) :
    let start := ((kernel shash).run (.bootWith procAlloc syscallAlloc) operations).1
    let first := ((kernel shash).run start batch).1.policy
    let second := ((kernel shash).run start reordered).1.policy
    (kernel shash).Meets (fun state operation => operation.Returns shash state) start reordered ∧
      SameSets first second ∧
      ∀ env request, (runHook first env request).ret = (runHook second env request).ret := by
  intro start first second
  obtain ⟨sets, refines⟩ := exists_refines shash procAlloc syscallAlloc operations
  have fed := fed_of_meets shash returned
  have fedReordered : ∀ operation ∈ reordered, operation.Fed :=
    fun operation member => fed operation (permutation.mem_iff.mpr member)
  obtain ⟨final, performed⟩ := (refines.all_return_iff shash fed).mp returned
  have performedReordered := SetPolicy.performAll_perm permutation adds performed
  have firstRefines := refines.run_performAll shash fed performed
  have secondRefines := refines.run_performAll shash fedReordered performedReordered
  exact ⟨(refines.all_return_iff shash fedReordered).mpr ⟨final, performedReordered⟩,
    firstRefines.represented.sameSets secondRefines.represented,
    firstRefines.represented.runHook_ret_eq secondRefines.represented⟩

/-- A file, a process and two system calls. -/
def mixedBatch : List Operation :=
  [.write administrator .protectedFilesAdd (CString.ascii "/etc/passwd\n"),
    .write administrator .protectedProcsAdd (CString.ascii "nginx 0"),
    .write administrator .blockedSyscallsAdd (CString.ascii "101"),
    .write administrator .blockedSyscallsAdd (CString.ascii "165")]

/-- Before the batch, a file for which there is no memory. -/
def unsuppliedAdd : Operation :=
  .write { administrator with fileAdd := { administrator.fileAdd with kmalloc := none } }
    .protectedFilesAdd (CString.ascii "/etc/shadow")

theorem additions_in_any_order_mixed :
    let start := ((kernel sha256Shash).run (.bootWith (fun slot => slot != 0) fun _ => true)
      [unsuppliedAdd]).1
    let first := ((kernel sha256Shash).run start mixedBatch).1.policy
    let second := ((kernel sha256Shash).run start mixedBatch.reverse).1.policy
    start.policy.files.entries = [] ∧ first.syscalls ≠ second.syscalls ∧
      SameSets first second := by
  intro start first second
  have adds : ∀ operation ∈ mixedBatch, operation.OnlyAdds := by
    intro operation member
    simp only [mixedBatch, List.mem_cons, List.not_mem_nil, or_false] at member
    rcases member with rfl | rfl | rfl | rfl
    · rfl
    · rfl
    · rfl
    · rfl
  have returned : (kernel sha256Shash).Meets
      (fun state operation => operation.Returns sha256Shash state) start mixedBatch := by
    refine ⟨?_, ?_, ?_, ?_, trivial⟩
    · show Operation.Returns sha256Shash _ _
      decide +kernel
    · show Operation.Returns sha256Shash _ _
      decide +kernel
    · show Operation.Returns sha256Shash _ _
      decide +kernel
    · show Operation.Returns sha256Shash _ _
      decide +kernel
  have same := (additions_in_any_order sha256Shash _ _ [unsuppliedAdd] mixedBatch
    mixedBatch.reverse adds mixedBatch.reverse_perm.symm returned).2.1
  exact ⟨by decide +kernel, by decide +kernel, same⟩

end Aegis.Refinement
