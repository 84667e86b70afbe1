import Aegis.Policy.Verdicts

/-!
Owns what attaching to a task tells and covers: whether a check that asks for
silence leaves no record, and whether the threads of a protected process are
protected with their group leader.

Does not own: the verdicts of the hooks.
-/

namespace Aegis.Policy

open Aegis.Foundation
open Aegis.Kernel

/-! ### Silent checks -/

/-- The mode with `PTRACE_MODE_NOAUDIT` set. -/
def silent (mode : BitVec 32) : BitVec 32 := mode ||| ptraceModeNoaudit

/-- The mode with `PTRACE_MODE_NOAUDIT` cleared. -/
def audited (mode : BitVec 32) : BitVec 32 := mode &&& ~~~ptraceModeNoaudit

@[simp] theorem hasBits_silent (mode : BitVec 32) :
    hasBits (silent mode) ptraceModeNoaudit = true := by
  have kept : (mode ||| ptraceModeNoaudit) &&& ptraceModeNoaudit = ptraceModeNoaudit := by
    ext index
    simp only [BitVec.getElem_and, BitVec.getElem_or, Bool.and_or_distrib_right, Bool.and_self]
    cases mode[index] <;> simp
  rw [hasBits, silent, kept]
  decide

@[simp] theorem hasBits_audited (mode : BitVec 32) :
    hasBits (audited mode) ptraceModeNoaudit = false := by
  have cleared : (mode &&& ~~~ptraceModeNoaudit) &&& ptraceModeNoaudit = 0 := by
    ext index
    simp
  rw [hasBits, audited, cleared]
  decide

/-- A silent check logs nothing and is otherwise the check with the bit
cleared, which logs exactly when it denies. -/
structure SilenceKept (policy : PolicyState) (env : HookEnv) (child : Task)
    (mode : BitVec 32) : Prop where
  quiet : (aegisPtraceAccessCheck policy env child (silent mode)).log = []
  sameVerdict : (aegisPtraceAccessCheck policy env child (silent mode)).ret =
    (aegisPtraceAccessCheck policy env child (audited mode)).ret
  sameCounters : (aegisPtraceAccessCheck policy env child (silent mode)).stats =
    (aegisPtraceAccessCheck policy env child (audited mode)).stats
  loud : (aegisPtraceAccessCheck policy env child (audited mode)).log ≠ [] ↔
    (aegisPtraceAccessCheck policy env child (audited mode)).ret ≠ 0

/-- Silence is kept unless the target is refused for being a protected
process. The branch that restricts all tracing looks at the bit, the branch of
the list does not. -/
theorem silenceKept_iff (policy : PolicyState) (env : HookEnv) (child : Task)
    (mode : BitVec 32) :
    SilenceKept policy env child mode ↔
      ¬ (policy.cfg.featureCheck featurePtraceRestrict = true ∧
        policy.cfg.ptraceRestrictAll = false ∧
        policy.cfg.featureCheck featureProcessProtect = true ∧
        policy.procs.listed (procProtects child) = true) := by
  have isProtected := @aegisIsProcessProtected_iff policy.cfg policy.procs child
  cases restricted : policy.cfg.featureCheck featurePtraceRestrict with
  | false =>
      refine iff_of_true ?_ (by simp)
      constructor <;> simp [aegisPtraceAccessCheck, restricted, HookOutcome.allow]
  | true =>
      cases all : policy.cfg.ptraceRestrictAll with
      | true =>
          refine iff_of_true ?_ (by simp)
          constructor <;> simp [aegisPtraceAccessCheck, restricted, all]
      | false =>
          cases answer : aegisIsProcessProtected policy.cfg policy.procs (some child) with
          | true =>
              obtain ⟨active, isListed⟩ := isProtected.mp answer
              refine iff_of_false ?_ (by simp [active, isListed])
              intro kept
              have quiet := kept.quiet
              simp [aegisPtraceAccessCheck, restricted, all, active, answer] at quiet
          | false =>
              refine iff_of_true ?_ ?_
              · constructor <;>
                  simp [aegisPtraceAccessCheck, restricted, all, answer, HookOutcome.allow]
              · rintro ⟨-, -, active, isListed⟩
                have found := isProtected.mpr ⟨active, isListed⟩
                simp [answer] at found

/-- Under the boot policy a silent check of `sshd` is logged. -/
theorem aegisPtraceAccessCheck_breaks_silence :
    (aegisPtraceAccessCheck (boot (fun _ => true) (fun _ => true)) ⟨shell, true, true⟩ sshd
      ptraceModeNoaudit).log = [.ptraceProtected shell.toTaskName sshd.toTaskName] ∧
    ¬ SilenceKept (boot (fun _ => true) (fun _ => true)) ⟨shell, true, true⟩ sshd 0 := by
  have logged : (aegisPtraceAccessCheck (boot (fun _ => true) (fun _ => true))
      ⟨shell, true, true⟩ sshd ptraceModeNoaudit).log =
        [.ptraceProtected shell.toTaskName sshd.toTaskName] := by decide +kernel
  refine ⟨logged, fun kept => ?_⟩
  have quiet := kept.quiet
  rw [show silent 0 = ptraceModeNoaudit by decide, logged] at quiet
  simp at quiet

/-! ### Thread groups -/

/-- The group leader of a task, which leads itself. -/
def leaderOf (task : Task) : Task := ⟨task.groupLeader, task.groupLeader⟩

/-- An entry names this thread id. -/
def ListsPid (procs : ProcList) (pid : Int) : Prop :=
  ∃ entry ∈ procs.entries, entry.pid ≠ 0 ∧ entry.pid = pid

/-- An entry without a process id has this name. -/
def ListsComm (procs : ProcList) (comm : CString) : Prop :=
  ∃ entry ∈ procs.entries, entry.pid = 0 ∧ entry.comm.text = comm

theorem listed_procProtects_iff {procs : ProcList} {task : Task} :
    procs.listed (procProtects task) = true ↔
      ListsPid procs task.pid ∨ ListsComm procs task.comm ∨
        ListsComm procs task.groupLeader.comm := by
  simp only [Registry.listed_iff, procProtects, Bool.or_eq_true, Bool.and_eq_true, bne_iff_ne,
    beq_iff_eq, procCommHit_iff, ListsPid, ListsComm, ← exists_or, ← and_or_left, or_assoc]

/-- A task whose leader is protected is protected too, and cannot be attached
to where its leader cannot. -/
structure CoversThread (policy : PolicyState) (task : Task) : Prop where
  isProtected :
    aegisIsProcessProtected policy.cfg policy.procs (some (leaderOf task)) = true →
      aegisIsProcessProtected policy.cfg policy.procs (some task) = true
  untraceable : ∀ env mode,
    (aegisPtraceAccessCheck policy env (leaderOf task) mode).ret = Errno.eperm.ret →
      (aegisPtraceAccessCheck policy env task mode).ret = Errno.eperm.ret

/-- A thread is covered unless the list names its leader by process id and
names the thread in no way. -/
theorem coversThread_iff (policy : PolicyState) (task : Task)
    (active : policy.cfg.featureCheck featureProcessProtect = true) :
    CoversThread policy task ↔
      ¬ (ListsPid policy.procs task.groupLeader.pid ∧ ¬ ListsPid policy.procs task.pid ∧
        ¬ ListsComm policy.procs task.comm ∧ ¬ ListsComm policy.procs task.groupLeader.comm) := by
  have ofTask := @aegisIsProcessProtected_iff policy.cfg policy.procs task
  have ofLeader := @aegisIsProcessProtected_iff policy.cfg policy.procs (leaderOf task)
  rw [listed_procProtects_iff] at ofTask ofLeader
  constructor
  · rintro covers ⟨byPid, notPid, notComm, notLeaderComm⟩
    rcases (ofTask.mp (covers.isProtected (ofLeader.mpr ⟨active, Or.inl byPid⟩))).2 with
      pid | comm | leaderComm
    · exact notPid pid
    · exact notComm comm
    · exact notLeaderComm leaderComm
  · intro noGap
    have isProtected :
        aegisIsProcessProtected policy.cfg policy.procs (some (leaderOf task)) = true →
          aegisIsProcessProtected policy.cfg policy.procs (some task) = true := by
      intro leader
      refine ofTask.mpr ⟨active, ?_⟩
      by_contra uncovered
      simp only [not_or] at uncovered
      rcases (ofLeader.mp leader).2 with pid | comm | comm
      · exact noGap ⟨pid, uncovered⟩
      · exact uncovered.2.2 comm
      · exact uncovered.2.2 comm
    refine ⟨isProtected, fun env mode => ?_⟩
    rw [aegisPtraceAccessCheck_ret, aegisPtraceAccessCheck_ret, ite_ret_eq_ret_iff,
      ite_ret_eq_ret_iff]
    exact And.imp_right (Or.imp_right isProtected)

/-- A thread of `sshd` with a name of its own. -/
theorem coversThread_sshd :
    aegisCfg.featureCheck featureProcessProtect = true ∧
      CoversThread (boot (fun _ => true) (fun _ => true))
        ⟨⟨.lit "worker", 701⟩, sshd.toTaskName⟩ := by
  refine ⟨by decide, (coversThread_iff _ _ (by decide)).mpr ?_⟩
  rintro ⟨-, -, -, noEntry⟩
  exact noEntry ⟨procEntry (.lit "sshd") 0, by decide +kernel, rfl, by decide +kernel⟩

/-- Under the boot policy process 1 may not be attached to, but a thread of it
with another name may. -/
theorem aegisPtraceAccessCheck_allows_thread :
    let worker : Task := ⟨⟨.lit "worker", 57⟩, ⟨.lit "systemd", 1⟩⟩
    aegisIsProcessProtected aegisCfg (boot (fun _ => true) (fun _ => true)).procs
        (some (leaderOf worker)) = true ∧
      (aegisPtraceAccessCheck (boot (fun _ => true) (fun _ => true)) ⟨shell, true, true⟩
        (leaderOf worker) 0).ret = Errno.eperm.ret ∧
      aegisIsProcessProtected aegisCfg (boot (fun _ => true) (fun _ => true)).procs
        (some worker) = false ∧
      (aegisPtraceAccessCheck (boot (fun _ => true) (fun _ => true)) ⟨shell, true, true⟩
        worker 0).ret = 0 := by
  decide +kernel

end Aegis.Policy
