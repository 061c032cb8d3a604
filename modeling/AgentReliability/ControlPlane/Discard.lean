import AgentReliability.ControlPlane.EventLog
import AgentReliability.ControlPlane.Statuses
/-!
# What a restart discards

A restart throws the progress of an attempt away and opens a new one from
the start. The checkpoints of the discarded attempt stay in the table, and
a later resume takes the newest checkpoint of the run, whoever wrote it. So
a run goes on from a discarded attempt exactly when no attempt after it has
saved a checkpoint yet.
-/

namespace AgentReliability

namespace ControlPlane

/-! ## The checkpoints are saved in the order of the attempts -/

namespace RunCore

structure OrderInv (c : RunCore) : Prop where
  sorted : c.checkpoints.Pairwise (· ≤ ·)
  author_lt : ∀ i ∈ c.checkpoints, i < c.attempts.length
  discarded_lt : ∀ d ∈ c.decisions, d.2 = .restartAttempt → d.1 < c.attempts.length

theorem Created.orderInv {c : RunCore} (h : c.Created) : OrderInv c := by
  refine ⟨?_, ?_, ?_⟩
  · rw [h.checkpoints]
    exact List.Pairwise.nil
  · rw [h.checkpoints]
    simp
  · rw [h.decisions]
    simp

/-- A step that keeps the checkpoints and restarts nothing. -/
theorem OrderInv.of_kept {c d : RunCore} (h : OrderInv c)
    (hcheckpoints : d.checkpoints = c.checkpoints)
    (hlen : c.attempts.length ≤ d.attempts.length)
    (hdecisions : ∀ x ∈ d.decisions, x.2 = .restartAttempt → x ∈ c.decisions) : OrderInv d where
  sorted := by rw [hcheckpoints]; exact h.sorted
  author_lt := fun i hi => (h.author_lt i (hcheckpoints ▸ hi)).trans_le hlen
  discarded_lt := fun x hx hr => (h.discarded_lt x (hdecisions x hx hr) hr).trans_le hlen

/-- **Every step keeps the order.** Only the executing attempt, which is the
newest, saves a checkpoint. -/
theorem OrderInv.step {c d : RunCore} (hinv : StatusInv c) (h : OrderInv c) (hs : Step c d) :
    OrderInv d := by
  have hlen := (Later.of_step hs).length_le
  cases hs with
  | @checkpoint i no _ hi =>
    have hlast := (hinv.executing hi).1
    refine ⟨?_, fun k hk => ?_, h.discarded_lt⟩
    · refine List.pairwise_append.mpr ⟨h.sorted, List.pairwise_singleton _ _, fun a ha b hb => ?_⟩
      rw [List.mem_singleton.mp hb]
      have := h.author_lt a ha
      omega
    · rcases List.mem_append.mp hk with hk | hk
      · exact h.author_lt k hk
      · rw [List.mem_singleton.mp hk]
        exact (List.getElem?_eq_some_iff.mp hi).1
  | @redispatch i no _ _ action _ hi =>
    have hi' : i < c.attempts.length := (List.getElem?_eq_some_iff.mp hi).1
    refine ⟨h.sorted, fun k hk => (h.author_lt k hk).trans_le hlen, fun x hx hr => ?_⟩
    rcases List.mem_append.mp hx with hx | hx
    · exact (h.discarded_lt x hx hr).trans_le hlen
    · rw [List.mem_singleton.mp hx]
      exact hi'.trans_le hlen
  | park hi _ _ _ hdecisions =>
    refine h.of_kept rfl hlen fun x hx hr => ?_
    rcases List.mem_append.mp hx with hx | hx
    · exact hx
    · exact absurd hr (hdecisions x hx)
  | abort =>
    refine h.of_kept rfl hlen fun x hx hr => ?_
    rcases List.mem_append.mp hx with hx | hx
    · exact hx
    · rw [List.mem_singleton.mp hx] at hr
      exact absurd hr (by simp)
  | _ => exact h.of_kept rfl hlen fun x hx _ => hx

/-! ## Going on from the newest checkpoint -/

/-- **Every restart was followed by a checkpoint of a later attempt**, or
there is no checkpoint to go on from. -/
def Fresh (c : RunCore) : Prop :=
  c.checkpoints = [] ∨
    ∀ d ∈ c.decisions, d.2 = .restartAttempt → ∃ i ∈ c.checkpoints, d.1 < i

/-- The checkpoint that a command sent up to `d` carries was written after
every attempt that `c` had discarded. -/
def Avoids (c d : RunCore) (command : RunCommand) : Prop :=
  ∀ k ∈ command.checkpointId, ∀ x ∈ c.decisions, x.2 = .restartAttempt →
    ∃ i, d.checkpoints[k]? = some i ∧ x.1 < i

/-- The newest checkpoint is by the newest of the authors. -/
theorem OrderInv.le_newest {c : RunCore} (h : OrderInv c) {i j : ℕ}
    (hlast : c.checkpoints[c.checkpoints.length - 1]? = some i) (hj : j ∈ c.checkpoints) : j ≤ i := by
  obtain ⟨k, hk, rfl⟩ := List.mem_iff_getElem.mp hj
  obtain ⟨hlt, rfl⟩ := List.getElem?_eq_some_iff.mp hlast
  rcases Nat.lt_or_ge k (c.checkpoints.length - 1) with hbefore | hlast
  · exact List.pairwise_iff_getElem.mp h.sorted k _ hk hlt hbefore
  · have hk' : k = c.checkpoints.length - 1 := by omega
    subst hk'
    exact le_rfl

theorem latestCheckpoint_eq_some {c : RunCore} {k : CheckpointId}
    (h : c.latestCheckpoint = some k) : c.checkpoints ≠ [] ∧ k = c.checkpoints.length - 1 := by
  unfold latestCheckpoint at h
  split at h
  · exact absurd h (by simp)
  · rename_i hne
    exact ⟨by simpa using hne, (Option.some.inj h).symm⟩

/-- **The newest checkpoint avoids what was discarded exactly when the run
is fresh.** -/
theorem avoids_iff_fresh {c d : RunCore} (h : OrderInv c)
    (hcheckpoints : d.checkpoints = c.checkpoints) {command : RunCommand} {k : CheckpointId}
    (hk : command.checkpointId = some k) (hlatest : c.latestCheckpoint = some k) :
    Avoids c d command ↔ c.Fresh := by
  obtain ⟨hne, rfl⟩ := latestCheckpoint_eq_some hlatest
  constructor
  · intro havoids
    refine .inr fun x hx hr => ?_
    obtain ⟨i, hi, hlt⟩ := havoids _ hk x hx hr
    rw [hcheckpoints] at hi
    exact ⟨i, List.mem_of_getElem? hi, hlt⟩
  · rintro (hnone | hfollowed)
    · exact absurd hnone hne
    · intro k' hk' x hx hr
      obtain rfl : k' = c.checkpoints.length - 1 := Option.some.inj (hk'.symm.trans hk)
      have hpos : c.checkpoints.length - 1 < c.checkpoints.length := by
        have := List.length_pos_iff.mpr hne
        omega
      obtain ⟨j, hj, hlt⟩ := hfollowed x hx hr
      refine ⟨_, by rw [hcheckpoints]; exact List.getElem?_eq_getElem hpos, ?_⟩
      exact hlt.trans_le (h.le_newest (List.getElem?_eq_getElem hpos) hj)

/-- **The step lemma.** A command that a step sends with a checkpoint
avoids what was discarded exactly when the run was fresh. -/
theorem Step.avoids_iff {c d : RunCore} (h : OrderInv c) (hs : Step c d) {j : ℕ}
    (hj : c.commands.length ≤ j) {command : RunCommand} (hd : d.commands[j]? = some command)
    {k : CheckpointId} (hk : command.checkpointId = some k) : Avoids c d command ↔ c.Fresh := by
  have hlast : ∀ {x : RunCommand}, (c.commands ++ [x])[j]? = some command → x = command := by
    intro x hx
    rw [List.getElem?_append_right hj] at hx
    have := List.mem_of_getElem? hx
    exact (List.mem_singleton.mp this).symm
  have hnone : c.commands[j]? ≠ some command := by
    rw [List.getElem?_eq_none hj]
    simp
  cases hs with
  | redispatch _ _ _ _ _ _ _ hcheckpoint =>
    obtain rfl := hlast hd
    rw [hk] at hcheckpoint
    split at hcheckpoint
    · refine avoids_iff_fresh h ?_ hk hcheckpoint.symm
      rfl
    · exact absurd hcheckpoint (by simp)
  | resume _ _ _ _ _ hcheckpoint =>
    obtain rfl := hlast hd
    rw [hk] at hcheckpoint
    refine avoids_iff_fresh h ?_ hk hcheckpoint.symm
    rfl
  | _ => exact absurd hd hnone

/-! ## From a restart on -/

/-- What a later moment keeps of the histories of an earlier one. -/
structure GoesOn (c d : RunCore) : Prop where
  commands : c.commands <+: d.commands
  checkpoints : c.checkpoints <+: d.checkpoints
  decisions : c.decisions <+: d.decisions

theorem GoesOn.refl (c : RunCore) : GoesOn c c :=
  ⟨List.prefix_rfl, List.prefix_rfl, List.prefix_rfl⟩

theorem GoesOn.trans {c d e : RunCore} (h₁ : GoesOn c d) (h₂ : GoesOn d e) : GoesOn c e :=
  ⟨h₁.commands.trans h₂.commands, h₁.checkpoints.trans h₂.checkpoints,
    h₁.decisions.trans h₂.decisions⟩

theorem GoesOn.of_step {c d : RunCore} (hs : Step c d) : GoesOn c d := by
  cases hs with
  | park => exact ⟨List.prefix_rfl, List.prefix_rfl, List.prefix_append _ _⟩
  | redispatch => exact ⟨List.prefix_append _ _, List.prefix_rfl, List.prefix_append _ _⟩
  | abort => exact ⟨List.prefix_rfl, List.prefix_rfl, List.prefix_append _ _⟩
  | resume => exact ⟨List.prefix_append _ _, List.prefix_rfl, List.prefix_rfl⟩
  | checkpoint => exact ⟨List.prefix_rfl, List.prefix_append _ _, List.prefix_rfl⟩
  | _ => exact ⟨List.prefix_rfl, List.prefix_rfl, List.prefix_rfl⟩

/-- The commands sent after `c`, up to `d`, avoid what `c` had discarded. -/
def Discards (c d : RunCore) : Prop :=
  ∀ (j : ℕ) (command : RunCommand), c.commands.length ≤ j → d.commands[j]? = some command →
    Avoids c d command

/-- Nothing was sent yet. -/
theorem Discards.refl (c : RunCore) : Discards c c := by
  intro j command hj hd
  rw [List.getElem?_eq_none hj] at hd
  exact absurd hd (by simp)

/-- **The law is kept by a step that sends no checkpoint of a run that is
not fresh.** -/
theorem Discards.step {b c d : RunCore} (h : Discards b c) (hbc : GoesOn b c) (horder : OrderInv c)
    (hs : Step c d)
    (hfresh : ∀ (j : ℕ) (command : RunCommand), c.commands.length ≤ j →
      d.commands[j]? = some command → command.checkpointId.isSome → c.Fresh) : Discards b d := by
  have hcd := GoesOn.of_step hs
  intro j command hj hd k hk x hx hr
  rcases Nat.lt_or_ge j c.commands.length with hold | hnew
  · -- The command was there before the step, and its checkpoint with it.
    have hc : c.commands[j]? = some command := by
      obtain ⟨sent, hsent⟩ := hcd.commands
      rw [← hsent, List.getElem?_append_left hold] at hd
      exact hd
    obtain ⟨i, hi, hafter⟩ := h j command hj hc k hk x hx hr
    obtain ⟨saved, hsaved⟩ := hcd.checkpoints
    refine ⟨i, ?_, hafter⟩
    rw [← hsaved, List.getElem?_append_left (List.getElem?_eq_some_iff.mp hi).1]
    exact hi
  · have hfresh' := hfresh j command hnew hd (Option.isSome_iff_exists.mpr ⟨k, hk⟩)
    exact (Step.avoids_iff horder hs hnew hd hk).mpr hfresh' k hk x (hbc.decisions.subset hx) hr

end RunCore

/-! ## The events that go on from a checkpoint -/

/-- **The restarts of a run are behind it**: each was followed by a
checkpoint of a later attempt, or there is no checkpoint to go on from. -/
def RunRows.Fresh (r : RunRows) : Prop :=
  r.checkpoints = [] ∨ ∀ d ∈ r.policyDecisions, d.action = .restartAttempt →
    ∃ c ∈ r.checkpoints, d.attemptId.index < c.attemptId.index

instance (r : RunRows) : Decidable r.Fresh := by
  unfold RunRows.Fresh
  infer_instance

/-- The failure of an executing attempt is answered with a `resume`. -/
def recovers (s : State) (id : AttemptId) (code : FailureCode) : Bool :=
  s.db.runs[id.runId]?.any fun r => r.attempts[id.index]?.any fun a =>
    a.status = .running && tableAction r a.no code = .resume

/-- The run a request goes on with from its newest checkpoint, if it is
accepted. -/
def Request.goesOn (s : State) : Request → Option RunId
  | .complete id _ (.failed code _) _ _ => if recovers s id code then some id.runId else none
  | .leaseExpired id _ => if recovers s id .workerLost then some id.runId else none
  | .resume runId =>
    if s.db.runs[runId]?.any fun r => r.isSnapshot && r.run.status = .interrupted then some runId
    else none
  | _ => none

def Event.goesOn (s : State) : Event → Option RunId
  | .request _ req => req.goesOn s
  | _ => none

/-- A run that is to go on from its newest checkpoint is fresh. -/
def FreshAt (s : State) (e : Event) : Prop :=
  ∀ id ∈ e.goesOn s, ∀ r ∈ s.db.runs[id]?, r.Fresh

instance (s : State) (e : Event) : Decidable (FreshAt s e) := by
  unfold FreshAt
  infer_instance

/-- The messages of `r'` that are not in `r` meet `S`. -/
def NewMessages (S : RunCommand → Prop) (r r' : RunRows) : Prop :=
  ∀ (j : ℕ) (m : OutboxMessage), r.outbox.length ≤ j → r'.outbox[j]? = some m → S m.payload

section

variable {S : RunCommand → Prop} {r r' : RunRows}

theorem OutboxGrows.newMessages (h : OutboxGrows S r r') : NewMessages S r r' := by
  obtain ⟨sent, houtbox, hsent⟩ := h
  intro j m hj hm
  rw [houtbox, List.getElem?_append_right hj] at hm
  exact (hsent m (List.mem_of_getElem? hm)).2

theorem newMessages_of_length (h : r'.outbox.length ≤ r.outbox.length) : NewMessages S r r' := by
  intro j m hj hm
  have := (List.getElem?_eq_some_iff.mp hm).1
  omega

/-- An update of a message sends none. -/
theorem updateMessage_newMessages {j : ℕ} {f : OutboxMessage → OutboxMessage}
    (h : updateMessage j f r = .ok r') : NewMessages S r r' := by
  simp only [updateMessage, bind_eq_ok, pure_eq_ok] at h
  obtain ⟨-, -, rfl⟩ := h
  refine newMessages_of_length ?_
  change (r.outbox.modify j f).length ≤ r.outbox.length
  rw [List.length_modify]

end

/-- What an attempt that executes now is recovered from. -/
theorem recovers_eq_true {s : State} {id : AttemptId} {code : FailureCode} {r : RunRows}
    {a : Attempt} (hr : s.db.runs[id.runId]? = some r) (ha : r.attempts[id.index]? = some a)
    (hrun : a.status = .running) (haction : tableAction r a.no code = .resume) :
    recovers s id code = true := by
  unfold recovers
  rw [hr, Option.any_some, ha, Option.any_some, haction, hrun]
  rfl

/-- A failure that sends a checkpoint is recovered from. -/
theorem newMessages_of_completeFailed {s : State} {ctx : Context} {id : AttemptId} {no : ℕ}
    {seen r r' : RunRows} {code : FailureCode} {extras : CompleteExtras}
    (hr : s.db.runs[id.runId]? = some r) (hcap : Captured seen r id.index no)
    (h : completeFailed ctx seen id.index no code extras r = .ok r') :
    NewMessages (fun command => command.checkpointId.isSome → recovers s id code = true) r r' := by
  have howner := h
  simp only [completeFailed, bind_eq_ok, require_eq_ok, orThrow_eq_ok] at howner
  obtain ⟨owner, howner, -, hrun, -⟩ := howner
  refine (completeFailed_grows (fun command hgoesOn hsome => ?_) h).outbox.newMessages
  have haction := hgoesOn hsome
  rw [← hcap.no_eq owner howner] at haction
  exact recovers_eq_true hr howner hrun haction

theorem newMessages_of_leaseExpired {s : State} {ctx : Context} {id : AttemptId} {no : ℕ}
    {seen r r' : RunRows} (hr : s.db.runs[id.runId]? = some r) (hinv : r.core.StatusInv)
    (hcap : Captured seen r id.index no)
    (h : handleLeaseExpired ctx seen id.index no r = .ok r') :
    NewMessages (fun command => command.checkpointId.isSome → recovers s id .workerLost = true)
      r r' := by
  by_cases hlive : ∃ owner, r.attempts[id.index]? = some owner ∧ owner.status = .running
  · obtain ⟨owner, howner, hrun⟩ := hlive
    refine (handleLeaseExpired_grows (fun command hgoesOn hsome => ?_) h).outbox.newMessages
    have haction := hgoesOn hsome
    rw [← hcap.no_eq owner howner] at haction
    exact recovers_eq_true hr howner hrun haction
  · -- An attempt that has ended is left as it is, and no attempt is only claimed.
    refine newMessages_of_length (le_of_eq ?_)
    unfold handleLeaseExpired at h
    split at h
    · rw [pure_eq_ok] at h
      rw [h]
    · rename_i a ha
      have hclaimed : a.status ≠ .claimed :=
        hinv.unclaimed _ (List.mem_map_of_mem (List.mem_of_getElem? ha))
      have hrun : a.status ≠ .running := fun hrun => hlive ⟨a, ha, hrun⟩
      rw [if_neg (by simp [leaseLost, hclaimed, hrun]), pure_eq_ok] at h
      rw [h]

/-- **A request that sends a checkpoint goes on from it.** -/
theorem goesOn_of_request {s : State} (hs : Sound s) {env : Env} {req : Request} {tx : Transaction}
    (hprep : req.prepare s env = .ok (some tx)) {r r' : RunRows}
    (hr : s.db.runs[tx.runId]? = some r)
    (hbody : tx.body (s.db.context env tx.runId) r = .ok r') :
    NewMessages (fun command => command.checkpointId.isSome → req.goesOn s = some tx.runId)
      r r' := by
  cases Request.goesTo hprep with
  | claim => exact (claimAttempt_grows hbody).outbox.newMessages
  | heartbeat => exact (heartbeat_grows (K := fun _ => True) hbody).outbox.newMessages
  | @complete id token outcome _ _ _ a seen hlease hread =>
    have hcap := hs.captured hread hr
    cases outcome with
    | succeeded extras => exact (completeSucceeded_grows hbody).outbox.newMessages
    | failed code extras =>
      intro j m hj hm hsome
      exact if_pos (newMessages_of_completeFailed hr hcap hbody j m hj hm hsome)
  | saveCheckpoint => exact (saveCheckpoint_grows (K := fun _ => True) hbody).outbox.newMessages
  | leaseExpired hread =>
    have hcap := hs.captured hread hr
    intro j m hj hm hsome
    exact if_pos (newMessages_of_leaseExpired hr (hs.rows hr).1 hcap hbody j m hj hm hsome)
  | phase => exact (phase_grows hbody).outbox.newMessages
  | pause => exact (pause_grows hbody).outbox.newMessages
  | @pauseRun runId readAt i a =>
    have hpause : pause (s.db.context env runId) i a.leaseToken "PAUSED_BY_USER" none r = .ok r' :=
      hbody
    exact (pause_grows hpause).outbox.newMessages
  | cancel => exact (cancel_grows hbody).outbox.newMessages
  | resume =>
    refine (resume_grows (fun hstatus hsnap command _ => ?_) hbody).outbox.newMessages
    refine if_pos ?_
    rw [hr, Option.any_some, hstatus, hsnap]
    rfl
  | reserve =>
    have hkeeps := (reserve_keeps (K := fun _ => True) hbody).2.1
    exact newMessages_of_length (by rw [hkeeps])
  | settle =>
    have hkeeps := (settle_keeps (K := fun _ => True) hbody).2
    exact newMessages_of_length (by rw [hkeeps])
  | ingest => exact (ingest_grows hbody).outbox.newMessages
  | @markPublished runId message =>
    have h : markPublished _ message r = .ok r' := hbody
    unfold markPublished at h
    exact updateMessage_newMessages h
  | @countFailure runId message =>
    have h : countFailure message r = .ok r' := hbody
    unfold countFailure at h
    exact updateMessage_newMessages h
  | @republish runId message =>
    have h : republish message r = .ok r' := hbody
    unfold republish at h
    exact updateMessage_newMessages h

/-- **An event that sends a checkpoint of a run goes on from it.** -/
theorem goesOn_of_event {s : State} (hs : Sound s) (e : Event) {id : RunId} {r r' : RunRows}
    (hr : s.db.runs[id]? = some r) (hr' : (step s e).db.runs[id]? = some r') :
    NewMessages (fun command => command.checkpointId.isSome → e.goesOn s = some id) r r' := by
  have hkept : s.db.runs[id]? = some r' →
      NewMessages (fun command => command.checkpointId.isSome → e.goesOn s = some id) r r' := by
    intro hsame
    rw [Option.some.inj (hr.symm.trans hsame)]
    exact newMessages_of_length le_rfl
  have hlt := (List.getElem?_eq_some_iff.mp hr).1
  rcases db_step s e with ⟨db, hc, hdb⟩ | hdb
  · rw [hdb] at hr'
    cases e with
    | createTask env input =>
      obtain ⟨rows, -, rfl⟩ := Option.map_eq_some_iff.mp hc
      rw [List.getElem?_append_left hlt] at hr'
      exact hkept hr'
    | confirm env input readAt =>
      obtain ⟨rows, -, rfl⟩ := Option.map_eq_some_iff.mp hc
      rw [List.getElem?_append_left hlt] at hr'
      exact hkept hr'
    | request env req =>
      obtain ⟨tx, x, x', hprep, hx, hbody, rfl⟩ := Request.commit_eq_some hc
      by_cases hid : tx.runId = id
      · rw [hid] at hx
        obtain rfl := Option.some.inj (hr.symm.trans hx)
        rw [hid, List.getElem?_set_self hlt] at hr'
        obtain rfl := Option.some.inj hr'
        have := goesOn_of_request hs hprep (hid ▸ hx) hbody
        rwa [hid] at this
      · rw [List.getElem?_set_ne hid] at hr'
        exact hkept hr'
    | environment env attempt token fingerprint imageId log =>
      obtain ⟨db', hdb', rfl⟩ := Option.map_eq_some_iff.mp hc
      rw [toOption_eq_some] at hdb'
      simp only [Database.transact, bind_eq_ok, orThrow_eq_ok, pure_eq_ok] at hdb'
      obtain ⟨x, hx, x', hbody, rfl⟩ := hdb'
      by_cases hid : attempt.runId = id
      · rw [hid] at hx
        obtain rfl := Option.some.inj (hr.symm.trans hx)
        rw [hid, List.getElem?_set_self hlt] at hr'
        obtain rfl := Option.some.inj hr'
        exact (environment_grows (K := fun _ => True) hbody).outbox.newMessages
      · rw [List.getElem?_set_ne hid] at hr'
        exact hkept hr'
    | publish => exact absurd hc (by simp [Event.commit?])
  · rw [hdb] at hr'
    exact hkept hr'

/-! ## The result -/

theorem orderInv_of_run (es : List Event) {id : RunId} {r : RunRows}
    (hr : (machine.run es).db.runs[id]? = some r) : r.core.OrderInv :=
  core_invariant (P := fun c => c.OrderInv) (fun hc _ => hc.orderInv)
    (fun hinv hP hs => hP.step hinv hs) es hr

/-- The abstraction of a run is fresh when the run is. -/
theorem fresh_core {r : RunRows} : r.core.Fresh ↔ r.Fresh := by
  simp [RunCore.Fresh, RunRows.Fresh, RunRows.core]

/-- The checkpoint was written by an attempt of a higher number. -/
def WrittenAfter (r : RunRows) (k : CheckpointId) (id : AttemptId) : Prop :=
  ∃ c a b, r.checkpoints[k]? = some c ∧ r.attempts[c.attemptId.index]? = some a ∧
    r.attempts[id.index]? = some b ∧ b.no < a.no

/-- **What `s` had discarded stays discarded up to `s'`**: a command of the
run that was written in between carries no checkpoint, or one written after
every attempt a restart had discarded in `s`. -/
def StaysDiscarded (s s' : State) (id : RunId) : Prop :=
  ∀ r r' : RunRows, s.db.runs[id]? = some r → s'.db.runs[id]? = some r' →
    ∀ d ∈ r.policyDecisions, d.action = .restartAttempt →
      ∀ (j : ℕ) (m : OutboxMessage), r.outbox.length ≤ j → r'.outbox[j]? = some m →
        ∀ k ∈ m.payload.checkpointId, WrittenAfter r' k d.attemptId

theorem writtenAfter_iff {r : RunRows} (hinv : r.core.StatusInv) (horder : r.core.OrderInv)
    {k : CheckpointId} {id : AttemptId} (hid : id.index < r.attempts.length) :
    WrittenAfter r k id ↔ ∃ i, r.core.checkpoints[k]? = some i ∧ id.index < i := by
  constructor
  · rintro ⟨c, a, b, hc, ha, hb, hlt⟩
    rw [attempt_no hinv ha, attempt_no hinv hb] at hlt
    exact ⟨c.attemptId.index, by simp [RunRows.core, hc], by omega⟩
  · rintro ⟨i, hi, hlt⟩
    have hauthor := horder.author_lt i (List.mem_of_getElem? hi)
    simp only [RunRows.core, List.length_map] at hauthor
    change (r.checkpoints.map (·.attemptId.index))[k]? = some i at hi
    rw [List.getElem?_map] at hi
    obtain ⟨c, hc, rfl⟩ := Option.map_eq_some_iff.mp hi
    have ha := List.getElem?_eq_getElem hauthor
    have hb := List.getElem?_eq_getElem hid
    refine ⟨c, _, _, hc, ha, hb, ?_⟩
    rw [attempt_no hinv ha, attempt_no hinv hb]
    omega

/-- What stays discarded, seen abstractly. -/
theorem staysDiscarded_iff {s s' : State} {id : RunId} {r r' : RunRows}
    (hr : s.db.runs[id]? = some r) (hr' : s'.db.runs[id]? = some r') (horder : r.core.OrderInv)
    (hinv' : r'.core.StatusInv) (horder' : r'.core.OrderInv)
    (hlen : r.attempts.length ≤ r'.attempts.length) :
    StaysDiscarded s s' id ↔ RunCore.Discards r.core r'.core := by
  have hdiscarded : ∀ d ∈ r.policyDecisions, d.action = .restartAttempt →
      d.attemptId.index < r'.attempts.length := by
    intro d hd hrestart
    have hmem : (d.attemptId.index, d.action) ∈ r.core.decisions := List.mem_map.mpr ⟨d, hd, rfl⟩
    have := horder.discarded_lt _ hmem hrestart
    simp only [RunRows.core, List.length_map] at this
    omega
  constructor
  · intro h j command hj hcommand k hk x hx hrestart
    obtain ⟨d, hd, rfl⟩ := List.mem_map.mp hx
    change (r'.outbox.map (·.payload))[j]? = some command at hcommand
    rw [List.getElem?_map] at hcommand
    obtain ⟨m, hm, rfl⟩ := Option.map_eq_some_iff.mp hcommand
    have hj' : r.outbox.length ≤ j := by simpa [RunRows.core] using hj
    exact (writtenAfter_iff hinv' horder' (hdiscarded d hd hrestart)).mp
      (h r r' hr hr' d hd hrestart j m hj' hm k hk)
  · intro h x x' hx hx' d hd hrestart j m hj hm k hk
    obtain rfl := Option.some.inj (hr.symm.trans hx)
    obtain rfl := Option.some.inj (hr'.symm.trans hx')
    refine (writtenAfter_iff hinv' horder' (hdiscarded d hd hrestart)).mpr ?_
    exact h j m.payload (by simpa [RunRows.core] using hj) (by simp [RunRows.core, hm]) k hk _
      (List.mem_map.mpr ⟨d, hd, rfl⟩) hrestart

/-- The step of a run at an event, seen abstractly, with what it sends. -/
theorem core_step {s : State} (hs : Sound s) (e : Event) {id : RunId} {r r' : RunRows}
    (hr : s.db.runs[id]? = some r) (hr' : (step s e).db.runs[id]? = some r') :
    RunCore.Step r.core r'.core ∧
      (FreshAt s e → ∀ (j : ℕ) (command : RunCommand), r.core.commands.length ≤ j →
        r'.core.commands[j]? = some command → command.checkpointId.isSome → r.core.Fresh) := by
  refine ⟨?_, fun hfresh j command hj hcommand hsome => ?_⟩
  · obtain ⟨x, hx, hstep⟩ := rows_step_of_some hs e hr
    obtain rfl := Option.some.inj (hr'.symm.trans hx)
    rcases hstep with rfl | ⟨env, hrow⟩
    · exact .stay _
    · obtain ⟨hinv, hfrozen⟩ := hs.rows hr
      exact hrow.core hr hinv hfrozen
  · change (r'.outbox.map (·.payload))[j]? = some command at hcommand
    rw [List.getElem?_map] at hcommand
    obtain ⟨m, hm, rfl⟩ := Option.map_eq_some_iff.mp hcommand
    have hgoesOn := goesOn_of_event hs e hr hr' j m (by simpa [RunRows.core] using hj) hm hsome
    exact fresh_core.mpr (hfresh id hgoesOn r hr)

/-- **The run lemma.** An admitted stretch of a run sends nothing that it
had discarded before. -/
theorem discards_of_admits (es : List Event) {fs : List Event}
    (hfs : machine.Admits FreshAt (machine.run es) fs) {id : RunId} {r r' : RunRows}
    (hr : (machine.run es).db.runs[id]? = some r)
    (hr' : (machine.run (es ++ fs)).db.runs[id]? = some r') :
    RunCore.Discards r.core r'.core ∧ RunCore.GoesOn r.core r'.core := by
  induction fs using List.reverseRecOn generalizing r' with
  | nil =>
    rw [List.append_nil] at hr'
    rw [Option.some.inj (hr.symm.trans hr')]
    exact ⟨.refl _, .refl _⟩
  | append_singleton fs f ih =>
    obtain ⟨hbefore, hlast, -⟩ := machine.admits_append.mp hfs
    rw [← machine.run_append] at hlast
    have hs := sound_of_reachable (machine.reachable_run (es ++ fs))
    obtain ⟨x, hx, -⟩ := (sound_of_reachable (machine.reachable_run es)).rows_after hr fs
    rw [← machine.run_append] at hx
    rw [← List.append_assoc, machine.run_concat] at hr'
    obtain ⟨hdiscards, hgoesOn⟩ := ih hbefore hx
    obtain ⟨hstep, hfresh⟩ := core_step hs f hx hr'
    exact ⟨hdiscards.step hgoesOn (orderInv_of_run _ hx) hstep (hfresh hlast),
      hgoesOn.trans (.of_step hstep)⟩

theorem staysDiscarded_iff_of_run (es fs : List Event) {id : RunId} {r r' : RunRows}
    (hr : (machine.run es).db.runs[id]? = some r)
    (hr' : (machine.run (es ++ fs)).db.runs[id]? = some r') :
    StaysDiscarded (machine.run es) (machine.run (es ++ fs)) id ↔
      RunCore.Discards r.core r'.core := by
  have hs := sound_of_reachable (machine.reachable_run es)
  have hs' := sound_of_reachable (machine.reachable_run (es ++ fs))
  have hlen : r.attempts.length ≤ r'.attempts.length := by
    obtain ⟨x, hx, hlater⟩ := hs.rows_after hr fs
    rw [← machine.run_append, hr'] at hx
    rw [← Option.some.inj hx] at hlater
    simpa [RunRows.core] using hlater.length_le
  exact staysDiscarded_iff hr hr' (orderInv_of_run es hr) (hs'.rows hr').1
    (orderInv_of_run _ hr') hlen

/-- **A discarded attempt stays discarded as long as no run goes on from a
checkpoint while its last restart was not followed by one.** In a run whose
steps all meet that, what was discarded at any moment stays discarded; and
at any moment of any run, an event that sends a checkpoint breaks the law
unless the run is fresh. -/
theorem discarded_stays_discarded (es fs : List Event) :
    (machine.Admits FreshAt machine.init (es ++ fs) → ∀ id : RunId,
      StaysDiscarded (machine.run es) (machine.run (es ++ fs)) id) ∧
    ∀ (e : Event) (id : RunId) (r r' : RunRows),
      (machine.run es).db.runs[id]? = some r →
      (machine.run (es ++ [e])).db.runs[id]? = some r' →
      ∀ (j : ℕ) (m : OutboxMessage), r.outbox.length ≤ j → r'.outbox[j]? = some m →
        m.payload.checkpointId.isSome →
        (StaysDiscarded (machine.run es) (machine.run (es ++ [e])) id ↔ r.Fresh) := by
  refine ⟨fun hadmits id r r' hr hr' => ?_, fun e id r r' hr hr' j m hj hm hsome => ?_⟩
  · have hfs := (machine.admits_append.mp hadmits).2
    exact (staysDiscarded_iff_of_run es fs hr hr').mpr (discards_of_admits es hfs hr hr').1 r r' hr hr'
  · rw [staysDiscarded_iff_of_run es [e] hr hr', ← fresh_core]
    have hs := sound_of_reachable (machine.reachable_run es)
    have hstep := (core_step hs e hr (by rwa [machine.run_concat] at hr')).1
    have horder := orderInv_of_run es hr
    obtain ⟨k, hk⟩ := Option.isSome_iff_exists.mp hsome
    have hj' : r.core.commands.length ≤ j := by simpa [RunRows.core] using hj
    have hm' : r'.core.commands[j]? = some m.payload := by simp [RunRows.core, hm]
    constructor
    · intro hdiscards
      exact (RunCore.Step.avoids_iff horder hstep hj' hm' hk).mp (hdiscards j _ hj' hm')
    · intro hfresh
      exact (RunCore.Discards.refl _).step (.refl _) horder hstep fun _ _ _ _ _ => hfresh

/-- A checkpoint of the small run's attempt at a position. -/
def checkpointBy (i : ℕ) : Checkpoint where
  attemptId := ⟨0, i⟩
  threadId := "thread"
  baseCommit := "base"
  appliedPatchSha := none
  appliedPatch := some "diff"
  completedToolCalls := []
  usedTokens := 0
  usedSeconds := 0

/-- A run whose first attempt saved a checkpoint and was discarded, and
whose second attempt was lost before it saved one. -/
def restartedRun : List Event := [
  .confirm (envAt 0) (smallConfirm "key") 0,
  claimAt 1000 0 1 1,
  .request (envAt 2000) (.saveCheckpoint 0 (checkpointBy 0) (some 7) (checkAt 2000 2)),
  .request (envAt 3000) (.complete ⟨0, 0⟩ (some 7) (.failed .agentStuck {}) (checkAt 3000 3)
    ⟨3, 3⟩),
  claimAt 4000 0 2 4]

/-- The lease of the second attempt runs out. -/
def secondLost (version : ℕ) : Event :=
  .request (envAt 50000) (.leaseExpired ⟨0, 1⟩ ⟨version, version⟩)

/-- **The law fails for a second attempt that is lost before it saved a
checkpoint.** The command of the third carries the checkpoint of the
first. -/
theorem discarded_attempt_resumed :
    ¬ StaysDiscarded (machine.run restartedRun) (machine.run (restartedRun ++ [secondLost 5])) 0 := by
  intro h
  obtain ⟨r, hr⟩ : ∃ r, (machine.run restartedRun).db.runs[0]? = some r := ⟨_, rfl⟩
  obtain ⟨r', hr'⟩ : ∃ r', (machine.run (restartedRun ++ [secondLost 5])).db.runs[0]? = some r' :=
    ⟨_, rfl⟩
  have hdecided : ((machine.run restartedRun).db.runs[0]?).map (fun r =>
      (r.policyDecisions.map fun d => (d.attemptId, d.action), r.outbox.length)) =
        some ([(⟨0, 0⟩, .restartAttempt)], 2) := by decide
  have hsent : ((machine.run (restartedRun ++ [secondLost 5])).db.runs[0]?).map (fun r =>
      (r.outbox[2]?.map (·.payload.checkpointId), r.checkpoints[0]?.map (·.attemptId.index))) =
        some (some (some 0), some 0) := by decide
  rw [hr, Option.map_some, Option.some.injEq, Prod.mk.injEq] at hdecided
  rw [hr', Option.map_some, Option.some.injEq, Prod.mk.injEq] at hsent
  obtain ⟨hdecisions, hlen⟩ := hdecided
  obtain ⟨m, hm, hk⟩ := Option.map_eq_some_iff.mp hsent.1
  have hmem : (⟨⟨0, 0⟩, .restartAttempt⟩ : AttemptId × PolicyAction) ∈
      r.policyDecisions.map fun d => (d.attemptId, d.action) := by
    rw [hdecisions]
    exact List.mem_singleton_self _
  obtain ⟨d, hd, heq⟩ := List.mem_map.mp hmem
  obtain ⟨hid, haction⟩ := Prod.mk.injEq .. ▸ heq
  obtain ⟨c, a, b, hc, ha, hb, hlt⟩ := h r r' hr hr' d hd haction 2 m hlen.le hm 0 hk
  -- The author of the checkpoint is the discarded attempt itself.
  have hauthor : c.attemptId.index = d.attemptId.index := by
    rw [hc, Option.map_some, Option.some.injEq] at hsent
    rw [hid, hsent.2]
  rw [hauthor, hb] at ha
  rw [Option.some.inj ha] at hlt
  exact absurd hlt (Nat.lt_irrefl _)

/-- The second attempt saves a checkpoint of its own before it is lost. -/
def recheckpointedRun : List Event :=
  restartedRun ++ [
    .request (envAt 5000) (.saveCheckpoint 0 (checkpointBy 1) (some 7) (checkAt 5000 5)),
    secondLost 6]

/-- The command of the third attempt carries the checkpoint of the second,
and what was discarded stays so. -/
theorem discarded_stays_discarded_of_recheckpointed :
    machine.Admits FreshAt machine.init recheckpointedRun ∧
      StaysDiscarded (machine.run restartedRun) (machine.run recheckpointedRun) 0 ∧
      ((machine.run recheckpointedRun).db.runs[0]?.bind (·.outbox[2]?)).map
        (·.payload.checkpointId) = some (some 1) := by
  have hadmits : machine.Admits FreshAt machine.init recheckpointedRun := by decide
  exact ⟨hadmits, (discarded_stays_discarded _ _).1 hadmits 0, by decide⟩

end ControlPlane

end AgentReliability
