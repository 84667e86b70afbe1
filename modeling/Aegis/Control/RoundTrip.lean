import Aegis.Control.Outcomes

/-!
Owns the agreement of the two writes of each list: a deletion with the bytes of
an addition restores the policy, and the path that a file write acts on is
compared with the bytes that were written.

Does not own: the formats of the process and system call endpoints.
-/

namespace Aegis.Control

open Aegis.Foundation
open Aegis.Kernel
open Aegis.Policy

/-! ### Deletion undoes addition -/

/-- One of the three lists, with its two endpoints. -/
inductive PolicyList where
  | protectedFiles
  | protectedProcs
  | blockedSyscalls
deriving DecidableEq

def PolicyList.add : PolicyList → Endpoint
  | .protectedFiles => .protectedFilesAdd
  | .protectedProcs => .protectedProcsAdd
  | .blockedSyscalls => .blockedSyscallsAdd

def PolicyList.del : PolicyList → Endpoint
  | .protectedFiles => .protectedFilesDel
  | .protectedProcs => .protectedProcsDel
  | .blockedSyscalls => .blockedSyscallsDel

/-- The two endpoints of a list accept the same writes. -/
theorem PolicyList.del_refusal {list : PolicyList} {addEnv delEnv : ControlEnv}
    {ubuf : List UInt8} (accepted : refusal addEnv list.add ubuf = none)
    (delivered : Delivered delEnv list.del) : refusal delEnv list.del ubuf = none := by
  obtain ⟨-, length, nul, blank⟩ := refusal_eq_none_iff.mp accepted
  apply refusal_eq_none_iff.mpr
  cases list with
  | protectedFiles => exact ⟨delivered, length, nul, blank⟩
  | protectedProcs => exact ⟨delivered, length, nul, blank⟩
  | blockedSyscalls => exact ⟨delivered, length, nul, blank⟩

section Undo

variable {shash : Shash} {addEnv delEnv : ControlEnv} {len : Nat} {policy : PolicyState}

theorem addFile_undone {path : PathKey} {nonempty : 0 < path.val.length}
    (returned : ((Command.addFile path nonempty).perform shash addEnv len policy).ret = len) :
    let added := ((Command.addFile path nonempty).perform shash addEnv len policy).policy
    ((Command.delFile path nonempty).perform shash delEnv len added).ret = len ∧
      ((Command.delFile path nonempty).perform shash delEnv len added).policy = policy := by
  have zero := ret_eq_zero_of_settles (aegisProtectedFileAdd_settles shash addEnv.fileAdd
    (some path.val) policy.files) returned
  have removed := listDel_listAdd zero (by
    intro made isNew
    obtain ⟨junk, -, rfl⟩ := Option.map_eq_some_iff.mp isNew
    exact filePathHit_iff.mpr (fileEntry_path_text_of_fits path.property _))
    (.protectedFileRemoved path.val)
  simp only [Command.perform, aegisProtectedFileDel, aegisProtectedFileAdd]
  rw [removed]
  exact ⟨rfl, rfl⟩

theorem addProc_undone {comm : CommKey} {pid : Int}
    (returned : ((Command.addProc comm pid).perform shash addEnv len policy).ret = len) :
    let added := ((Command.addProc comm pid).perform shash addEnv len policy).policy
    ((Command.delProc comm pid).perform shash delEnv len added).ret = len ∧
      ((Command.delProc comm pid).perform shash delEnv len added).policy = policy := by
  have zero := ret_eq_zero_of_settles (aegisProtectProcessAdd_settles addEnv.kmallocEntry
    (some comm.val) pid policy.procs) returned
  have removed := listDel_listAdd zero (by
    intro made isNew
    obtain ⟨-, ⟨⟩⟩ := Option.ite_none_right_eq_some.mp isNew
    exact procHit_iff.mpr ⟨rfl, procEntry_comm_text_of_fits comm.property pid⟩)
    (.protectedProcessRemoved comm.val pid)
  simp only [Command.perform, aegisProtectProcessDel, aegisProtectProcessAdd]
  rw [removed]
  exact ⟨rfl, rfl⟩

theorem addSyscall_undone {nr : SyscallKey}
    (returned : ((Command.addSyscall nr).perform shash addEnv len policy).ret = len) :
    let added := ((Command.addSyscall nr).perform shash addEnv len policy).policy
    ((Command.delSyscall nr).perform shash delEnv len added).ret = len ∧
      ((Command.delSyscall nr).perform shash delEnv len added).policy = policy := by
  have nonneg : ¬ nr.val < 0 := Int.not_lt.mpr nr.property
  have zero := ret_eq_zero_of_settles (aegisSyscallBlockAdd_settles addEnv.kmallocEntry nr.val
    policy.syscalls) returned
  simp only [aegisSyscallBlockAdd, nonneg, if_false] at zero
  have removed := listDel_listAdd zero (by
    intro made isNew
    obtain ⟨-, ⟨⟩⟩ := Option.ite_none_right_eq_some.mp isNew
    exact (syscallHit_hitsKey nr.val _).mpr rfl)
    (.blockedSyscallRemoved nr.val)
  simp only [Command.perform, aegisSyscallBlockDel, aegisSyscallBlockAdd, nonneg, if_false]
  rw [removed]
  exact ⟨rfl, rfl⟩

end Undo

/-- A deletion with the bytes of an addition that returned their length returns
it too, and restores the policy. -/
theorem aectlWrite_del_undoes_add (shash : Shash) (addEnv delEnv : ControlEnv)
    (list : PolicyList) (ubuf : List UInt8) (policy : PolicyState)
    (returned : (aectlWrite shash addEnv list.add ubuf policy).ret = ubuf.length)
    (delivered : Delivered delEnv list.del) :
    let added := (aectlWrite shash addEnv list.add ubuf policy).policy
    (aectlWrite shash delEnv list.del ubuf added).ret = ubuf.length ∧
      (aectlWrite shash delEnv list.del ubuf added).policy = policy := by
  obtain ⟨accepted, command, reads, performed⟩ := exists_command_of_ret_eq_length returned
  rw [performed] at returned ⊢
  -- The deleting write reads the same argument as the adding one.
  have deletes : ∀ undo, Reads ubuf list.del undo → ∀ old,
      aectlWrite shash delEnv list.del ubuf old = undo.perform shash delEnv ubuf.length old := by
    intro undo readsToo old
    exact aectlWrite_of_reads (PolicyList.del_refusal accepted delivered) readsToo shash old
  cases list with
  | protectedFiles =>
      cases reads with
      | addFile nonempty =>
          simp only [deletes _ (.delFile nonempty)]
          exact addFile_undone returned
  | protectedProcs =>
      cases reads with
      | addProc converted =>
          simp only [deletes _ (.delProc converted)]
          exact addProc_undone returned
  | blockedSyscalls =>
      cases reads with
      | addSyscall isNumber =>
          simp only [deletes _ (.delSyscall isNumber)]
          exact addSyscall_undone returned

/-- A line with a process id and trailing text, in a list that already has an
entry of that name. -/
theorem aectlWrite_del_undoes_add_sshd :
    let line := CString.ascii " sshd 42 x\n"
    let added := aectlWrite sha256Shash administrator .protectedProcsAdd line
      (boot (fun _ => true) (fun _ => true))
    added.ret = line.length ∧
      (aectlWrite sha256Shash administrator .protectedProcsDel line added.policy).policy =
        boot (fun _ => true) (fun _ => true) := by
  have returned : (aectlWrite sha256Shash administrator .protectedProcsAdd
      (CString.ascii " sshd 42 x\n") (boot (fun _ => true) (fun _ => true))).ret =
        (CString.ascii " sshd 42 x\n").length := by decide +kernel
  exact ⟨returned, (aectlWrite_del_undoes_add sha256Shash administrator administrator
    .protectedProcs (CString.ascii " sshd 42 x\n") (boot (fun _ => true) (fun _ => true)) returned
    ⟨rfl, fun _ => rfl, rfl⟩).2⟩

/-! ### The path that was written -/

/-- A file write that returns its length had no NUL among its bytes, and added
or removed the entry of the written bytes without their trailing newlines. -/
structure ExactPath (shash : Shash) (ubuf : List UInt8) : Prop where
  added : ∀ env policy,
    (aectlWrite shash env .protectedFilesAdd ubuf policy).ret = ubuf.length →
      0 ∉ ubuf ∧ ∃ entry,
        (aectlWrite shash env .protectedFilesAdd ubuf policy).policy.files =
          policy.files.linkTail entry ∧
        entry.path.text.bytes = stripNewlines ubuf
  removed : ∀ env policy,
    (aectlWrite shash env .protectedFilesDel ubuf policy).ret = ubuf.length →
      ∃ before entry after, policy.files.entries = before ++ entry :: after ∧
        (aectlWrite shash env .protectedFilesDel ubuf policy).policy.files.entries =
          before ++ after ∧
        entry.path.text.bytes = stripNewlines ubuf

/-- The longest write that is accepted, with a last byte that is neither copied
nor a newline, and a line before it. -/
structure Truncated (ubuf : List UInt8) : Prop where
  longest : ubuf.length = aegisPathLen
  last : ∃ rest byte, ubuf = rest ++ [byte] ∧ isNewline byte = false
  noNul : 0 ∉ copiedBytes ubuf aegisPathLen
  line : ∃ byte ∈ copiedBytes ubuf aegisPathLen, isNewline byte = false

/-- An accepted write that is not truncated is read to its end. -/
theorem lineOf_eq_stripNewlines {env : ControlEnv} {endpoint : Endpoint} {ubuf : List UInt8}
    (allocates : endpoint.allocates = true) (accepted : refusal env endpoint ubuf = none)
    (whole : ¬ Truncated ubuf) :
    0 ∉ ubuf ∧ (lineOf ubuf aegisPathLen).bytes = stripNewlines ubuf := by
  obtain ⟨-, length, nul, blank⟩ := refusal_eq_none_iff.mp accepted
  have buffer : endpoint.bufLen = aegisPathLen := by
    cases endpoint <;> first | rfl | cases allocates
  rw [buffer] at nul blank
  simp only [Endpoint.accepts, allocates, buffer, if_true, Bool.and_eq_true,
    decide_eq_true_eq] at length
  rw [lineOf_bytes nul]
  rcases Nat.lt_or_eq_of_le length.2 with short | full
  · have copied : copiedBytes ubuf aegisPathLen = ubuf :=
      List.take_of_length_le (Nat.le_sub_one_of_lt short)
    rw [copied] at nul ⊢
    exact ⟨nul, rfl⟩
  · -- The byte that is not copied is a newline, so it would have been stripped.
    have split : ubuf = copiedBytes ubuf aegisPathLen ++ ubuf.drop (aegisPathLen - 1) :=
      (List.take_append_drop _ _).symm
    obtain ⟨byte, rest⟩ : ∃ byte, ubuf.drop (aegisPathLen - 1) = [byte] := by
      apply List.length_eq_one_iff.mp
      rw [List.length_drop, full]
      rfl
    rw [rest] at split
    have newline : isNewline byte = true := by
      by_contra other
      have other := Bool.eq_false_iff.mpr other
      apply whole
      refine ⟨full, ⟨_, byte, split, other⟩, nul, ?_⟩
      by_contra none
      apply blank
      rw [lineOf_length_eq_zero_iff nul]
      intro copied member
      by_contra different
      exact none ⟨copied, member, Bool.eq_false_iff.mpr different⟩
    constructor
    · intro member
      rw [split, List.mem_append, List.mem_singleton] at member
      rcases member with copied | last
      · exact nul copied
      · rw [← last] at newline
        exact absurd newline (by decide)
    · conv_rhs => rw [split]
      rw [stripNewlines, stripNewlines, List.rdropWhile_concat_pos _ _ _ newline]

/-- A truncated write is accepted, and cannot act on all its bytes. -/
theorem Truncated.not_exactPath {ubuf : List UInt8} (truncated : Truncated ubuf)
    (shash : Shash) : ¬ ExactPath shash ubuf := by
  intro exactPath
  have blank : (lineOf ubuf aegisPathLen).length ≠ 0 := by
    rw [Ne, lineOf_length_eq_zero_iff truncated.noNul]
    intro all
    obtain ⟨byte, member, other⟩ := truncated.line
    rw [all byte member] at other
    cases other
  have accepted : refusal administrator .protectedFilesAdd ubuf = none := by
    refine refusal_eq_none_iff.mpr ⟨⟨rfl, fun _ => rfl, rfl⟩, ?_, truncated.noNul, blank⟩
    rw [truncated.longest]
    rfl
  have returned : (aectlWrite shash administrator .protectedFilesAdd ubuf
      (boot (fun _ => true) (fun _ => true))).ret = ubuf.length := by
    rw [aectlWrite_of_reads accepted (.addFile (Nat.pos_of_ne_zero blank))]
    rfl
  obtain ⟨-, entry, -, text⟩ := exactPath.added administrator _ returned
  obtain ⟨rest, byte, split, other⟩ := truncated.last
  have unstripped : stripNewlines ubuf = ubuf := by
    rw [split, stripNewlines]
    exact List.rdropWhile_concat_neg _ _ _ (by simp [other])
  have stored := entry.path.text_length_lt
  rw [CString.length, text, unstripped, truncated.longest] at stored
  omega

/-- File writes act on exactly the path that was written, except for a write of
256 bytes whose last byte is not a newline: it loses that byte. -/
theorem exactPath_iff (shash : Shash) (ubuf : List UInt8) :
    ExactPath shash ubuf ↔ ¬ Truncated ubuf := by
  refine ⟨fun exactPath truncated => truncated.not_exactPath shash exactPath, fun whole => ?_⟩
  constructor
  · intro env policy returned
    obtain ⟨accepted, command, ⟨nonempty⟩, performed⟩ := exists_command_of_ret_eq_length returned
    obtain ⟨noNul, line⟩ := lineOf_eq_stripNewlines rfl accepted whole
    rw [performed] at returned ⊢
    have zero := ret_eq_zero_of_settles (aegisProtectedFileAdd_settles shash env.fileAdd
      (some (pathOf ubuf).val) policy.files) returned
    obtain ⟨junk, -, linked⟩ := aegisProtectedFileAdd_list_of_ret_zero zero
    refine ⟨noNul, _, linked, ?_⟩
    rw [fileEntry_path_text_of_fits (pathOf ubuf).property]
    exact line
  · intro env policy returned
    obtain ⟨accepted, command, ⟨nonempty⟩, performed⟩ := exists_command_of_ret_eq_length returned
    obtain ⟨-, line⟩ := lineOf_eq_stripNewlines rfl accepted whole
    rw [performed] at returned ⊢
    have zero := ret_eq_zero_of_settles
      (aegisProtectedFileDel_settles (some (pathOf ubuf).val) policy.files) returned
    obtain ⟨before, entry, after, split, hits, unlinked⟩ := listDel_list_of_ret_zero zero
    refine ⟨before, entry, after, split, unlinked, ?_⟩
    rw [filePathHit_iff.mp hits]
    exact line

/-- Writing a path of 256 bytes returns 256, and protects the path of its first
255 bytes. -/
theorem aectlWrite_truncates_path :
    let path := 47 :: (List.replicate 254 97 ++ [98])
    let outcome := aectlWrite sha256Shash administrator .protectedFilesAdd path
      (boot (fun _ => true) (fun _ => true))
    outcome.ret = path.length ∧
      outcome.policy.files.entries.map (fun entry => entry.path.text.bytes) =
        [47 :: List.replicate 254 97] ∧
      ¬ ExactPath sha256Shash path := by
  refine ⟨by decide +kernel, by decide +kernel, Truncated.not_exactPath ?_ sha256Shash⟩
  exact ⟨by decide +kernel, ⟨47 :: List.replicate 254 97, 98, rfl, by decide⟩, by decide +kernel,
    47, by decide +kernel, by decide⟩

end Aegis.Control
