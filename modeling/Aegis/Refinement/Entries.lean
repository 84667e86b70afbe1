import Aegis.Refinement.Ledger
import Aegis.Refinement.Monotone

/-!
Owns the policy as the sum of its entries. A request is denied exactly when the
configuration denies it with empty lists, or with some listed entry alone on
its list. So entries do not interact: a write that adds a key adds exactly the
denials of that key, and one that removes a key leaves exactly those of the
other keys.

Does not own: which keys are listed, or error numbers of the denials.
-/

namespace Aegis.Refinement

open Aegis.Foundation
open Aegis.Kernel
open Aegis.Policy
open Aegis.Control

/-! ### Policies with at most one entry -/

/-- The configuration with empty lists. -/
def withoutEntries (cfg : AegisConfig) : PolicyState :=
  ⟨cfg, aegisStats, Registry.empty, Registry.empty, Registry.empty⟩

/-- The hash that no verdict reads. -/
def pendingHash : Digest × Bool := (⟨List.replicate 32 0, rfl⟩, false)

/-- The configuration with one entry. -/
def PolicyKey.alone (cfg : AegisConfig) : PolicyKey → PolicyState
  | .file path => { withoutEntries cfg with files := ⟨[fileEntry path.val pendingHash], 1⟩ }
  | .proc comm pid => { withoutEntries cfg with procs := ⟨[procEntry comm.val pid], 1⟩ }
  | .syscall nr => { withoutEntries cfg with syscalls := ⟨[⟨nr⟩], 1⟩ }

variable {policy : PolicyState} {env : HookEnv} {request : HookRequest}

theorem withoutEntries_le (policy : PolicyState) : withoutEntries policy.cfg ≤ policy := by
  have same : AtMost policy policy := le_refl policy
  exact { same with
    files := List.nil_subset _
    procs := List.nil_subset _
    syscalls := List.nil_subset _ }

theorem PolicyKey.alone_le {key : PolicyKey} (listed : key.Listed policy) :
    key.alone policy.cfg ≤ policy := by
  have base : AtMost (withoutEntries policy.cfg) policy := withoutEntries_le policy
  cases key with
  | file path =>
      have keyed : (fileEntry path.val pendingHash).key = path := fileSpec.key_make path _
      exact { base with
        files := by
          rw [PolicyKey.alone, List.map_singleton, keyed]
          exact List.cons_subset.mpr ⟨listed, List.nil_subset _⟩ }
  | proc comm pid =>
      have keyed : (procEntry comm.val pid).key = (comm, pid) := procSpec.key_make (comm, pid) ()
      exact { base with
        procs := by
          rw [PolicyKey.alone, List.map_singleton, keyed]
          exact List.cons_subset.mpr ⟨listed, List.nil_subset _⟩ }
  | syscall nr =>
      exact { base with syscalls := List.cons_subset.mpr ⟨listed, List.nil_subset _⟩ }

/-! ### Denials of a single entry -/

theorem alone_isProcessProtected {task : Task}
    (isProtected : aegisIsProcessProtected policy.cfg policy.procs (some task) = true) :
    ∃ key : PolicyKey, key.Listed policy ∧
      aegisIsProcessProtected policy.cfg (key.alone policy.cfg).procs (some task) = true := by
  obtain ⟨active, isListed⟩ := aegisIsProcessProtected_iff.mp isProtected
  obtain ⟨entry, member, protects⟩ := Registry.listed_iff.mp isListed
  refine ⟨.proc entry.key.1 entry.key.2, List.mem_map_of_mem member, ?_⟩
  refine aegisIsProcessProtected_iff.mpr ⟨active, Registry.listed_iff.mpr ?_⟩
  refine ⟨procEntry entry.key.1.val entry.key.2, List.mem_singleton.mpr rfl, ?_⟩
  have keyed : (procEntry entry.key.1.val entry.key.2).key = entry.key :=
    procSpec.key_make entry.key ()
  rw [SetPolicy.procProtects_iff, keyed]
  exact SetPolicy.procProtects_iff.mp protects

theorem alone_deniesWrite {path : CString} {mask : BitVec 32}
    (denied : deniesWrite policy path mask = true) :
    ∃ key : PolicyKey, key.Listed policy ∧ deniesWrite (key.alone policy.cfg) path mask = true ∧
      (key.alone policy.cfg).files.count ≠ 0 := by
  simp only [deniesWrite, Bool.and_eq_true] at denied
  obtain ⟨⟨isProtected, enforced⟩, writes⟩ := denied
  obtain ⟨active, entry, member, named⟩ := aegisIsFileProtected_iff.mp isProtected
  refine ⟨.file entry.key, List.mem_map_of_mem member, ?_, by simp [PolicyKey.alone]⟩
  simp only [deniesWrite, Bool.and_eq_true]
  refine ⟨⟨aegisIsFileProtected_iff.mpr ⟨active, ?_⟩, enforced⟩, writes⟩
  have keyed : (fileEntry entry.key.val pendingHash).key = entry.key :=
    fileSpec.key_make entry.key _
  exact ⟨_, List.mem_singleton.mpr rfl, (congrArg Subtype.val keyed).trans named⟩

theorem alone_blocksRequest (blocks : policy.blocksRequest request = true) :
    ∃ key : PolicyKey, key.Listed policy ∧
      (key.alone policy.cfg).blocksRequest request = true := by
  obtain ⟨active, audits, isListed⟩ := policy.blocksRequest_iff.mp blocks
  unfold PolicyState.listsSyscall at isListed
  cases mapped : request.syscall with
  | none => simp [mapped] at isListed
  | some nr =>
      rw [mapped, Option.any_some, Registry.listed_iff_mem_keys (syscallHit_hitsKey nr)] at isListed
      refine ⟨.syscall nr, isListed, PolicyState.blocksRequest_iff _ |>.mpr ⟨active, audits, ?_⟩⟩
      unfold PolicyState.listsSyscall
      rw [mapped, Option.any_some, Registry.listed_iff_mem_keys (syscallHit_hitsKey nr)]
      exact List.mem_singleton.mpr rfl

/-- A denial is a denial without entries, or of one entry alone. -/
theorem alone_denies (denies : policy.Denies env request) :
    (withoutEntries policy.cfg).Denies env request ∨
      ∃ key : PolicyKey, key.Listed policy ∧ (key.alone policy.cfg).Denies env request := by
  have sameCfg : ∀ key : PolicyKey, (key.alone policy.cfg).cfg = policy.cfg := by
    intro key
    cases key <;> rfl
  have loading : policy.blocksRequest request = true ∨
      policy.deniesModules = true ∧ request.loadsCode = true →
      ((withoutEntries policy.cfg).blocksRequest request = true ∨
        (withoutEntries policy.cfg).deniesModules = true ∧ request.loadsCode = true) ∨
      ∃ key : PolicyKey, key.Listed policy ∧
        ((key.alone policy.cfg).blocksRequest request = true ∨
          (key.alone policy.cfg).deniesModules = true ∧ request.loadsCode = true) := by
    rintro (blocks | modules)
    · obtain ⟨key, listed, alone⟩ := alone_blocksRequest blocks
      exact Or.inr ⟨key, listed, Or.inl alone⟩
    · exact Or.inl (Or.inr modules)
  cases request with
  | ptraceAccessCheck child mode =>
      obtain ⟨active, restricted | isProtected⟩ := denies
      · exact Or.inl ⟨active, Or.inl restricted⟩
      · obtain ⟨key, listed, alone⟩ := alone_isProcessProtected isProtected
        refine Or.inr ⟨key, listed, ?_, Or.inr ?_⟩
        · rw [sameCfg]
          exact active
        · rw [sameCfg]
          exact alone
  | ptraceTraceme parent => exact Or.inl denies
  | filePermission file mask =>
      obtain ⟨denied, -, supplied⟩ := denies
      obtain ⟨key, listed, alone, counted⟩ := alone_deniesWrite denied
      exact Or.inr ⟨key, listed, alone, counted, supplied⟩
  | fileOpen file =>
      obtain ⟨denied, -, supplied⟩ := denies
      obtain ⟨key, listed, alone, counted⟩ := alone_deniesWrite denied
      exact Or.inr ⟨key, listed, alone, counted, supplied⟩
  | _ => exact loading denies

/-- The denials of a policy are those of its configuration and of its entries,
one at a time. -/
theorem denied_iff_alone (counted : policy.files.Counted) :
    (runHook policy env request).ret ≠ 0 ↔
      (runHook (withoutEntries policy.cfg) env request).ret ≠ 0 ∨
        ∃ key : PolicyKey, key.Listed policy ∧
          (runHook (key.alone policy.cfg) env request).ret ≠ 0 := by
  constructor
  · intro denied
    simp only [runHook_ret_ne_zero_iff] at denied ⊢
    exact alone_denies denied
  · rintro (denied | ⟨key, listed, denied⟩)
    · exact runHook_ret_ne_zero_mono (withoutEntries_le policy) counted denied
    · exact runHook_ret_ne_zero_mono (PolicyKey.alone_le listed) counted denied

/-! ### Writes -/

/-- The policy after a run from a boot, with allocations that may fail. -/
def policyAfter (shash : Shash) (procAlloc : Fin 3 → Bool) (syscallAlloc : Fin 5 → Bool)
    (operations : List Operation) : PolicyState :=
  ((kernel shash).run (.bootWith procAlloc syscallAlloc) operations).1.policy

section Runs

variable (shash : Shash) (procAlloc : Fin 3 → Bool) (syscallAlloc : Fin 5 → Bool)
variable (operations : List Operation)

theorem policyAfter_wellFormed :
    WellFormed (fun _ => True) (policyAfter shash procAlloc syscallAlloc operations) :=
  wellFormed_of_reachable (reachable_run shash procAlloc syscallAlloc operations)

theorem policyAfter_concat (operation : Operation) :
    policyAfter shash procAlloc syscallAlloc (operations ++ [operation]) =
      ((kernel shash).step ((kernel shash).run (.bootWith procAlloc syscallAlloc) operations).1
        operation).1.policy := by
  rw [policyAfter, Transducer.run_append_fst]
  rfl

theorem policyAfter_distinctKeys :
    DistinctKeys (policyAfter shash procAlloc syscallAlloc operations) := by
  have each : ∀ operation ∈ operations, (fun _ : Operation => True) operation :=
    fun _ _ => trivial
  exact Transducer.run_of_forall (fun state : KernelState => DistinctKeys state.policy)
    (fun _ operation _ distinct => distinct.step shash operation)
    (distinctKeys_boot procAlloc syscallAlloc) each

/-- After every run from every boot, a request is denied exactly when it is
denied with the lists empty or with some listed entry alone. -/
theorem entries_deny_independently (env : HookEnv) (request : HookRequest) :
    let policy := policyAfter shash procAlloc syscallAlloc operations
    (runHook policy env request).ret ≠ 0 ↔
      (runHook (withoutEntries policy.cfg) env request).ret ≠ 0 ∨
        ∃ key : PolicyKey, key.Listed policy ∧
          (runHook (key.alone policy.cfg) env request).ret ≠ 0 :=
  denied_iff_alone (policyAfter_wellFormed shash procAlloc syscallAlloc operations).files.counted

end Runs

section Effect

variable {shash : Shash} {writer : ControlEnv} {endpoint : Endpoint} {ubuf : List UInt8}
variable {command : Command}

/-- The policy after a write of the command that returned its length. -/
theorem aectlWrite_of_returned (isCommand : endpoint.command ubuf = some command)
    (returned : (aectlWrite shash writer endpoint ubuf policy).ret = ubuf.length) :
    aectlWrite shash writer endpoint ubuf policy =
      command.perform shash writer ubuf.length policy := by
  obtain ⟨-, performed, reads, same⟩ := exists_command_of_ret_eq_length returned
  obtain rfl := Option.some.inj
    ((Endpoint.command_eq_some_iff.mpr reads).symm.trans isCommand)
  exact same

/-- What is listed after the write. -/
theorem listed_of_returned (distinct : DistinctKeys policy)
    (isCommand : endpoint.command ubuf = some command)
    (returned : (aectlWrite shash writer endpoint ubuf policy).ret = ubuf.length)
    (key : PolicyKey) :
    key.Listed (aectlWrite shash writer endpoint ubuf policy).policy ↔
      (commandKey command = key ∧ commandAdds command = true) ∨
        (commandKey command ≠ key ∧ key.Listed policy) := by
  have performed := aectlWrite_of_returned isCommand returned
  have listed := distinct.listed_perform shash writer ubuf.length command key
  rw [performed] at returned ⊢
  simp only [returned, true_and] at listed
  exact listed

end Effect

/-- After a run from any boot, a write that returns its length: if it adds a
key, exactly the requests that this key alone denies are denied from then on
besides those denied before; if it removes a key, exactly those remain denied
that the configuration or another listed key alone denies. -/
theorem write_changes_own_denials (shash : Shash) (procAlloc : Fin 3 → Bool)
    (syscallAlloc : Fin 5 → Bool) (operations : List Operation) (writer : ControlEnv)
    (endpoint : Endpoint) (ubuf : List UInt8) (command : Command)
    (isCommand : endpoint.command ubuf = some command)
    (returned : (aectlWrite shash writer endpoint ubuf
      (policyAfter shash procAlloc syscallAlloc operations)).ret = ubuf.length) :
    let before := policyAfter shash procAlloc syscallAlloc operations
    let after := (aectlWrite shash writer endpoint ubuf before).policy
    ∀ (env : HookEnv) (request : HookRequest),
      (commandAdds command = true →
        ((runHook after env request).ret ≠ 0 ↔ (runHook before env request).ret ≠ 0 ∨
          (runHook ((commandKey command).alone before.cfg) env request).ret ≠ 0)) ∧
      (commandAdds command = false →
        ((runHook after env request).ret ≠ 0 ↔
          (runHook (withoutEntries before.cfg) env request).ret ≠ 0 ∨
            ∃ key : PolicyKey, key ≠ commandKey command ∧ key.Listed before ∧
              (runHook (key.alone before.cfg) env request).ret ≠ 0)) := by
  intro before after env request
  have distinct : DistinctKeys before :=
    policyAfter_distinctKeys shash procAlloc syscallAlloc operations
  have counted : before.files.Counted :=
    (policyAfter_wellFormed shash procAlloc syscallAlloc operations).files.counted
  have afterCounted : after.files.Counted := by
    have later := policyAfter_wellFormed shash procAlloc syscallAlloc
      (operations ++ [.write writer endpoint ubuf])
    rw [policyAfter_concat] at later
    exact later.files.counted
  have sameCfg : after.cfg = before.cfg := aectlWrite_cfg shash writer endpoint ubuf before
  have listed : ∀ key : PolicyKey, key.Listed after ↔ _ :=
    listed_of_returned distinct isCommand returned
  rw [denied_iff_alone afterCounted, sameCfg]
  constructor
  · intro adds
    rw [denied_iff_alone counted, or_assoc]
    refine or_congr_right ?_
    simp only [listed, adds, and_true]
    constructor
    · rintro ⟨key, rfl | ⟨-, old⟩, denied⟩
      · exact Or.inr denied
      · exact Or.inl ⟨key, old, denied⟩
    · rintro (⟨key, old, denied⟩ | denied)
      · by_cases same : commandKey command = key
        · exact ⟨key, Or.inl same, denied⟩
        · exact ⟨key, Or.inr ⟨same, old⟩, denied⟩
      · exact ⟨commandKey command, Or.inl rfl, denied⟩
  · intro removes
    refine or_congr_right (exists_congr fun key => ?_)
    rw [listed, removes, ← and_assoc, ne_comm]
    simp

/-- `/etc/passwd` listed after boot. -/
theorem write_changes_own_denials_passwd :
    ∃ command, Endpoint.command (CString.ascii "/etc/passwd\n") .protectedFilesAdd = some command ∧
      commandAdds command = true ∧
      ((runHook (aectlWrite sha256Shash administrator .protectedFilesAdd
          (CString.ascii "/etc/passwd\n")
          (policyAfter sha256Shash (fun _ => true) (fun _ => true) [])).policy ⟨shell, true, true⟩
            (.filePermission passwd mayWrite)).ret ≠ 0 ↔
        (runHook (policyAfter sha256Shash (fun _ => true) (fun _ => true) []) ⟨shell, true, true⟩
            (.filePermission passwd mayWrite)).ret ≠ 0 ∨
          (runHook ((commandKey command).alone aegisCfg) ⟨shell, true, true⟩
            (.filePermission passwd mayWrite)).ret ≠ 0) :=
  ⟨_, rfl, rfl, (write_changes_own_denials sha256Shash (fun _ => true) (fun _ => true) []
    administrator .protectedFilesAdd (CString.ascii "/etc/passwd\n") _ rfl (by decide +kernel)
    ⟨shell, true, true⟩ (.filePermission passwd mayWrite)).1 rfl⟩

end Aegis.Refinement
