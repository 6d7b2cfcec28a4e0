import LinuxExercises.Spec.View

/-!
# Every step of the process is a move of the registry machine

* `step_move`: a step of `chat` is a `Move` between the views of the two states.
* `view_inv`: the invariant rule on views, with a condition on the steps.
-/

namespace Chat

variable {E : Env} {m : Mem} {ch : Choice} {op : Op}

theorem lock_eq {α : Type} {q : α} {f : Flow α} (h : m.lock q = some (op, f)) :
    m.connMutex = none ∧ op = .lock ∧ f = .goto q := by
  unfold Mem.lock at h
  split at h
  · rename_i hm
    simp only [Option.some.injEq, Prod.mk.injEq] at h
    exact ⟨hm, h.1.symm, h.2.symm⟩
  · simp at h

/-- Where a set-up goes on, if it does. -/
def Flow.next {α : Type} : Flow α → Option α
  | .goto q => some q
  | _ => none

theorem setup_move {q : SetupPc} {f : Flow SetupPc} (h : setupStep E m ch q = some (op, f)) :
    SetupMove m ch q op f.next ∧ f ≠ .killed := by
  cases q with
  | malloc fd c a =>
    cases ch <;> simp only [setupStep, Option.some.injEq, Prod.mk.injEq, reduceCtorEq] at h
    · obtain ⟨rfl, rfl⟩ := h; exact ⟨.alloc .., by simp⟩
    · obtain ⟨rfl, rfl⟩ := h; exact ⟨.allocFails .., by simp⟩
  | lock p fd => obtain ⟨hm, rfl, rfl⟩ := lock_eq h; exact ⟨.lock p fd hm, by simp⟩
  | rbLock p => obtain ⟨hm, rfl, rfl⟩ := lock_eq h; exact ⟨.rbLock p hm, by simp⟩
  | create p fd =>
    cases ch <;> simp only [setupStep, Option.some.injEq, Prod.mk.injEq, reduceCtorEq] at h
    · obtain ⟨rfl, rfl⟩ := h; exact ⟨.create p fd rfl, by simp⟩
    · obtain ⟨rfl, rfl⟩ := h; exact ⟨.createFails p fd rfl, by simp⟩
  | rbFind p =>
    simp only [setupStep] at h
    split at h <;> rename_i hf <;> simp only [Option.some.injEq, Prod.mk.injEq] at h
    · obtain ⟨rfl, rfl⟩ := h; exact ⟨.rbHit p _ hf, by simp⟩
    · obtain ⟨rfl, rfl⟩ := h; exact ⟨.rbMiss p hf, by simp⟩
  | abort fd c => cases h; exact ⟨.abort fd c, by simp⟩
  | link p fd => cases h; exact ⟨.link p fd, by simp⟩
  | publish p fd => cases h; exact ⟨.publish p fd, by simp⟩
  | unlock p fd => cases h; exact ⟨.unlock p fd, by simp⟩
  | rbClose p fd => cases h; exact ⟨.rbClose p fd, by simp⟩
  | rbUnlink p prev => cases h; exact ⟨.rbUnlink p prev, by simp⟩
  | rbFree p => cases h; exact ⟨.rbFree p, by simp⟩
  | rbUnlock => cases h; exact ⟨.rbUnlock, by simp⟩
  | log p => cases h; exact ⟨.log p, by simp⟩

theorem recv_move {p : Ptr} {q : RecvPc} {f : Flow RecvPc} (h : connRecvThread m p ch q = some (op, f)) :
    RecvMove m p q op (f.lift id .finished .finished) := by
  cases q with
  | top =>
    simp only [connRecvThread] at h
    split at h <;> rename_i hc <;> cases h
    · exact .call _ hc
    · exact .bad
  | inRecv c =>
    cases ch with
    | bytes n => simp only [connRecvThread] at h; split at h <;> cases h; exact .take c n
    | eof => simp only [connRecvThread] at h; split at h <;> cases h; exact .over c _
    | eintr => cases h; exact .again c
    | fail => cases h; exact .over c _
    | _ => simp [connRecvThread] at h
  | got buf =>
    cases h
    by_cases hb : (onData buf).2
    · simp only [hb, if_true]; exact .show buf
    · simp only [hb]; exact .showLast buf
  | lock => obtain ⟨hm, rfl, rfl⟩ := lock_eq h; exact .lock hm
  | mark => cases h; exact .mark
  | unlock => cases h; exact .unlock
  | finished => simp [connRecvThread] at h

/-- The stage a function's flow leads to, if its caller has none of its own. -/
def Flow.stage {α : Type} (st : α → Stage) : Flow α → Stage
  | .goto q => st q
  | .ret => .rest
  | .killed => .ended

theorem reap_move {d : Bool} {q : ReapPc} {f : Flow ReapPc} (h : reapConnections m q = some (op, f)) :
    (q = .leave ∧ op = .unlock ∧ f = .ret) ∨
    ∃ q', f = .goto q' ∧ MainMove m d ch q.stage op q'.stage := by
  cases q with
  | lock => obtain ⟨hm, rfl, rfl⟩ := lock_eq h; exact .inr ⟨_, rfl, .lock _ hm⟩
  | scan =>
    simp only [reapConnections] at h
    split at h <;> rename_i hf <;> cases h
    · have hr := List.find?_some hf
      exact .inr ⟨_, rfl, .pick _ (List.mem_of_find?_eq_some hf) hr⟩
    · exact .inr ⟨_, rfl, .give _⟩
  | unlock p => cases h; exact .inr ⟨_, rfl, .unlockDoomed p⟩
  | join p => cases h; exact .inr ⟨_, rfl, .join _ p⟩
  | joining p t =>
    simp only [reapConnections] at h
    split at h <;> rename_i hj <;> cases h
    exact .inr ⟨_, rfl, .joined _ p t hj⟩
  | relock p => obtain ⟨hm, rfl, rfl⟩ := lock_eq h; exact .inr ⟨_, rfl, .relock _ p hm⟩
  | find p =>
    simp only [reapConnections] at h
    split at h <;> rename_i hf <;> cases h
    · exact .inr ⟨_, rfl, .findHit _ p _ hf⟩
    · exact .inr ⟨_, rfl, .findMiss _ p _ hf⟩
  | unlink p prev => cases h; exact .inr ⟨_, rfl, .unlink _ p prev⟩
  | free p => cases h; exact .inr ⟨_, rfl, .freeReap p⟩
  | log p => cases h; exact .inr ⟨_, rfl, .logFreed p⟩
  | leave => cases h; exact .inl ⟨rfl, rfl, rfl⟩

theorem connect_move {d : Bool} {q : ConnectPc} {f : Flow ConnectPc} (hq : ∀ r, q ≠ .setup r)
    (h : cmdConnect E m ch q = some (op, f)) :
    (∃ t fd c a, q = .connect t fd c ∧ op = .skip ∧ f = .goto (.setup (.malloc fd c a))) ∨
    (MainMove m d ch q.stage op (f.stage ConnectPc.stage) ∧ ∀ r, f ≠ .goto (.setup r)) := by
  cases q with
  | lock t => obtain ⟨hm, rfl, rfl⟩ := lock_eq h; exact .inr ⟨.lock _ hm, by simp⟩
  | scan t =>
    simp only [cmdConnect] at h
    split at h <;> rename_i hf <;> cases h
    · have ha := List.find?_some hf
      simp only [decide_eq_true_eq] at ha
      exact .inr ⟨.found _ (List.mem_of_find?_eq_some hf) ha.1, by simp⟩
    · exact .inr ⟨.stay _, by simp⟩
  | unlockDup p => cases h; exact .inr ⟨.unlockFound p, by simp⟩
  | logDup p => cases h; exact .inr ⟨.logged p, by simp⟩
  | unlock t => cases h; exact .inr ⟨.leave, by simp⟩
  | socket t =>
    cases ch with
    | fd n =>
      simp only [cmdConnect] at h
      split at h <;> rename_i hn <;> cases h
      exact .inr ⟨.open n hn rfl, by simp⟩
    | fail => cases h; exact .inr ⟨.stay _, by simp⟩
    | _ => simp [cmdConnect] at h
  | connect t fd c =>
    simp only [cmdConnect] at h
    split at h <;> cases h
    · exact .inl ⟨t, fd, c, _, rfl, rfl, rfl⟩
    · exact .inr ⟨.connectFails fd c, by simp⟩
    · exact .inr ⟨.connectFails fd c, by simp⟩
  | abort fd c => cases h; exact .inr ⟨.abandon fd c, by simp⟩
  | setup r => exact absurd rfl (hq r)

theorem list_move {d : Bool} {q : ListPc} {f : Flow ListPc} (h : cmdList m q = some (op, f)) :
    MainMove m d ch q.stage op (f.stage ListPc.stage) := by
  cases q with
  | lock => obtain ⟨hm, rfl, rfl⟩ := lock_eq h; exact .lock _ hm
  | print => cases h; exact .stay _
  | unlock => cases h; exact .leave

/-- A send goes on, or `SIGPIPE` ends the process. -/
theorem trySend_eq {α : Type} {p : Ptr} {text : Bytes} {k : Bool → α} {f : Flow α}
    (h : m.trySend p text ch k = (op, f)) :
    (op = .send p text false ∧ f = .killed) ∨
    (¬ m.brokenPipe p ∧ ∃ sent, op = .send p text sent ∧ f = .goto (k sent)) := by
  unfold Mem.trySend at h
  split at h <;> rename_i hb <;> simp only [Prod.mk.injEq] at h <;> obtain ⟨rfl, rfl⟩ := h
  · exact .inl ⟨rfl, rfl⟩
  · exact .inr ⟨hb, _, rfl, rfl⟩

theorem term_move {d : Bool} {id : BitVec 32} {q : TermPc} {f : Flow TermPc}
    (h : cmdTerminate m id ch q = some (op, f)) : MainMove m d ch q.stage op (f.stage TermPc.stage) := by
  cases q with
  | lock => obtain ⟨hm, rfl, rfl⟩ := lock_eq h; exact .lock _ hm
  | find =>
    simp only [cmdTerminate] at h
    split at h <;> rename_i hf <;> cases h
    · exact .choose _ (List.mem_of_find?_eq_some hf)
    · exact .give _
  | unlockNone => cases h; exact .leave
  | send p =>
    rcases trySend_eq (Option.some.inj h) with ⟨rfl, rfl⟩ | ⟨hb, sent, rfl, rfl⟩
    · exact .kill _ p
    · exact .send _ p sent hb
  | shutdown p => cases h; exact .shutdown _ p
  | close p => cases h; exact .close _ p
  | clear p => cases h; exact .clear p
  | unlock p => cases h; exact .unlockClosed p
  | join p => cases h; exact .join _ p
  | joining p t =>
    simp only [cmdTerminate] at h
    split at h <;> rename_i hj <;> cases h
    exact .joined _ p t hj
  | relock p => obtain ⟨hm, rfl, rfl⟩ := lock_eq h; exact .relock _ p hm
  | find2 p =>
    simp only [cmdTerminate] at h
    split at h <;> rename_i hf <;> cases h
    · exact .findHit _ p _ hf
    · exact .findMiss _ p _ hf
  | unlink p prev => cases h; exact .unlink _ p prev
  | free p => cases h; exact .free p
  | leave => cases h; exact .leave

theorem send_move {d : Bool} {id : BitVec 32} {text : Bytes} {q : SendPc} {f : Flow SendPc}
    (h : cmdSend m id text ch q = some (op, f)) : MainMove m d ch q.stage op (f.stage SendPc.stage) := by
  cases q with
  | lock => obtain ⟨hm, rfl, rfl⟩ := lock_eq h; exact .lock _ hm
  | find =>
    simp only [cmdSend] at h
    split at h <;> rename_i hf <;> cases h
    · have ha := List.find?_some hf
      simp only [decide_eq_true_eq] at ha
      exact .found _ (List.mem_of_find?_eq_some hf) ha.2
    · exact .stay _
  | unlockNone => cases h; exact .leave
  | send p =>
    rcases trySend_eq (Option.some.inj h) with ⟨rfl, rfl⟩ | ⟨hb, sent, rfl, rfl⟩
    · exact .killFound p text
    · exact .sendFound p text sent hb
  | unlock p sent =>
    simp only [cmdSend, Option.some.injEq, Prod.mk.injEq] at h
    obtain ⟨rfl, rfl⟩ := h
    cases sent
    · exact .unlockFailed p
    · exact .unlockFound p
  | log p => cases h; exact .logged p

theorem exit_move {d : Bool} {q : ExitPc} {f : Flow ExitPc} (h : cmdExit m d ch q = some (op, f)) :
    (q = .leave ∧ op = .unlock ∧ f = .ret) ∨ (f = .killed ∧ MainMove m d ch q.stage op .ended) ∨
    ∃ q', f = .goto q' ∧ MainMove m d ch q.stage op q'.stage := by
  cases q with
  | stop => cases h; exact .inr (.inr ⟨_, rfl, .stop⟩)
  | closeServer => cases h; exact .inr (.inr ⟨_, rfl, .closeServer⟩)
  | lock => obtain ⟨hm, rfl, rfl⟩ := lock_eq h; exact .inr (.inr ⟨_, rfl, .exitLock hm⟩)
  | pass cur =>
    cases cur with
    | none => cases h; exact .inr (.inr ⟨_, rfl, .passEnd⟩)
    | some p =>
      simp only [cmdExit] at h
      split at h <;> rename_i ha <;> cases h
      · exact .inr (.inr ⟨_, rfl, .passPick p ha⟩)
      · exact .inr (.inr ⟨_, rfl, .passSkip p ha⟩)
  | send p =>
    rcases trySend_eq (Option.some.inj h) with ⟨rfl, rfl⟩ | ⟨hb, sent, rfl, rfl⟩
    · exact .inr (.inl ⟨rfl, .kill _ p⟩)
    · exact .inr (.inr ⟨_, rfl, .send _ p sent hb⟩)
  | shutdown p => cases h; exact .inr (.inr ⟨_, rfl, .shutdown _ p⟩)
  | close p => cases h; exact .inr (.inr ⟨_, rfl, .close _ p⟩)
  | clear p => cases h; exact .inr (.inr ⟨_, rfl, .clearExit p⟩)
  | unlock => cases h; exact .inr (.inr ⟨_, rfl, .unlockPassed⟩)
  | joinListener =>
    simp only [cmdExit] at h
    split at h <;> rename_i hd <;> cases h
    exact .inr (.inr ⟨_, rfl, .joinListener hd⟩)
  | relock => obtain ⟨hm, rfl, rfl⟩ := lock_eq h; exact .inr (.inr ⟨_, rfl, .exitRelock hm⟩)
  | next cur =>
    cases cur with
    | none => cases h; exact .inr (.inr ⟨_, rfl, .nextEnd⟩)
    | some p => cases h; exact .inr (.inr ⟨_, rfl, .nextJoin p⟩)
  | joining p t =>
    simp only [cmdExit] at h
    split at h <;> rename_i hj <;> cases h
    exact .inr (.inr ⟨_, rfl, .exitJoined p t hj⟩)
  | free p => cases h; exact .inr (.inr ⟨_, rfl, .exitFree p⟩)
  | clearHead => cases h; exact .inr (.inr ⟨_, rfl, .clearHead⟩)
  | leave => cases h; exact .inl ⟨rfl, rfl, rfl⟩

/-- A command begins without the mutex, and `exit` by clearing `running`. -/
theorem dispatch_stage (E : Env) (c : Option Cmd) :
    (((c.map (dispatch E)).getD .loop).stage = .rest ∨ ((c.map (dispatch E)).getD .loop).stage = .exitStop) ∧
    ((c.map (dispatch E)).getD .loop).inSetup = none := by
  cases c with
  | none => exact ⟨.inl rfl, rfl⟩
  | some c =>
    simp only [Option.map_some, Option.getD_some]
    cases c with
    | idle => exact ⟨.inl rfl, rfl⟩
    | connect ip port => simp only [dispatch]; split <;> exact ⟨.inl rfl, rfl⟩
    | list => exact ⟨.inl rfl, rfl⟩
    | terminate id => exact ⟨.inl rfl, rfl⟩
    | send id msg => simp only [dispatch]; split <;> exact ⟨.inl rfl, rfl⟩
    | exit => exact ⟨.inr rfl, rfl⟩

theorem main_move {d : Bool} {q q' : MainPc} (hs : q.inSetup = none)
    (h : mainStep E m d ch q = some (op, q')) :
    (∃ fd c a, q.stage = .opened fd c ∧ op = .skip ∧ q' = .connect (.setup (.malloc fd c a))) ∨
    (MainMove m d ch q.stage op q'.stage ∧ q'.inSetup = none) := by
  -- what a function's flow makes of the stage and the set-up of the main thread
  have lift {α : Type} {f : Flow α} (k : α → MainPc) (st : α → Stage) (hk : ∀ x, (k x).stage = st x)
      (hn : ∀ x, (k x).inSetup = none) (hm : MainMove m d ch q.stage op (f.stage st)) :
      MainMove m d ch q.stage op (f.lift k .loop .ended).stage ∧ (f.lift k .loop .ended).inSetup = none := by
    cases f with
    | goto x => exact ⟨by simp only [Flow.lift, hk]; exact hm, hn x⟩
    | ret => exact ⟨hm, rfl⟩
    | killed => exact ⟨hm, rfl⟩
  cases q with
  | loop =>
    cases ch with
    | line c => cases h; exact .inr ⟨.stay _, rfl⟩
    | eof => cases h; exact .inr ⟨.eof, rfl⟩
    | _ => simp [mainStep] at h
  | reap q after =>
    obtain ⟨⟨op', f⟩, hf, he⟩ := Option.map_eq_some_iff.1 h
    cases he
    rcases reap_move hf with ⟨rfl, rfl, rfl⟩ | ⟨q', rfl, hm⟩
    · obtain ⟨hd, hn⟩ := dispatch_stage E after
      refine .inr ⟨?_, hn⟩
      simp only [Flow.lift]
      rcases hd with hd | hd <;> rw [hd]
      · exact .leave
      · exact .leaveExit
    · exact .inr ⟨hm, rfl⟩
  | connect q =>
    obtain ⟨⟨op', f⟩, hf, he⟩ := Option.map_eq_some_iff.1 h
    cases he
    have hq : ∀ r, q ≠ .setup r := fun r hr => by subst hr; simp [MainPc.inSetup] at hs
    rcases connect_move hq hf with ⟨t, fd, c, a, rfl, rfl, rfl⟩ | ⟨hm, hn⟩
    · exact .inl ⟨fd, c, a, rfl, rfl, rfl⟩
    · refine .inr ⟨?_, ?_⟩
      · cases f <;> exact hm
      · cases f with
        | goto x => cases x <;> first | rfl | exact absurd rfl (hn _)
        | ret => rfl
        | killed => rfl
  | list q =>
    obtain ⟨⟨op', f⟩, hf, he⟩ := Option.map_eq_some_iff.1 h
    cases he
    have hm : MainMove m d ch q.stage op (f.stage ListPc.stage) := list_move hf
    refine .inr ⟨?_, ?_⟩
    · cases f <;> exact hm
    · cases f <;> rfl
  | terminate id q =>
    obtain ⟨⟨op', f⟩, hf, he⟩ := Option.map_eq_some_iff.1 h
    cases he
    exact .inr (lift _ _ (fun _ => rfl) (fun _ => rfl) (term_move hf))
  | send id text q =>
    obtain ⟨⟨op', f⟩, hf, he⟩ := Option.map_eq_some_iff.1 h
    cases he
    exact .inr (lift _ _ (fun _ => rfl) (fun _ => rfl) (send_move hf))
  | exit q =>
    obtain ⟨⟨op', f⟩, hf, he⟩ := Option.map_eq_some_iff.1 h
    cases he
    rcases exit_move hf with ⟨rfl, rfl, rfl⟩ | ⟨rfl, hm⟩ | ⟨q', rfl, hm⟩
    · exact .inr ⟨.exitLeave, rfl⟩
    · exact .inr ⟨hm, rfl⟩
    · exact .inr ⟨hm, rfl⟩
  | ended => simp [mainStep] at h

/-- **The main thread in `cmd_connect`** was there, or has dispatched the command. -/
theorem main_connect {d : Bool} {q : MainPc} {c' : ConnectPc} (h : mainStep E m d ch q = some (op, .connect c')) :
    (∃ c, q = .connect c ∧ cmdConnect E m ch c = some (op, .goto c')) ∨
      ∃ x ip portstr t, q = .reap x (some (.connect ip portstr)) ∧ connectTarget E ip portstr = some t ∧ c' = .lock t := by
  cases q with
  | loop => cases ch <;> cases h
  | reap x after =>
    obtain ⟨⟨op', f⟩, -, he⟩ := Option.map_eq_some_iff.1 h
    have he : f.lift (MainPc.reap · after) ((after.map (dispatch E)).getD .loop) .ended = .connect c' :=
      (Prod.mk.inj he).2
    cases f with
    | goto x' => cases he
    | killed => cases he
    | ret =>
      cases after with
      | none => cases he
      | some cmd =>
        simp only [Flow.lift, Option.map_some, Option.getD_some] at he
        cases cmd with
        | connect ip portstr =>
          simp only [dispatch] at he
          split at he
          · rename_i t ht
            cases he
            exact .inr ⟨x, ip, portstr, t, rfl, ht, rfl⟩
          · cases he
        | send id msg =>
          simp only [dispatch] at he
          split at he <;> cases he
        | _ => cases he
  | connect c =>
    obtain ⟨⟨op', f⟩, hf, he⟩ := Option.map_eq_some_iff.1 h
    cases f with
    | goto x =>
      cases he
      exact .inl ⟨c, rfl, hf⟩
    | _ => cases he
  | list x =>
    obtain ⟨⟨op', f⟩, -, he⟩ := Option.map_eq_some_iff.1 h
    cases f <;> cases he
  | terminate id x =>
    obtain ⟨⟨op', f⟩, -, he⟩ := Option.map_eq_some_iff.1 h
    cases f <;> cases he
  | send id text x =>
    obtain ⟨⟨op', f⟩, -, he⟩ := Option.map_eq_some_iff.1 h
    cases f <;> cases he
  | exit x =>
    obtain ⟨⟨op', f⟩, -, he⟩ := Option.map_eq_some_iff.1 h
    cases f <;> cases he
  | ended => cases h

theorem setup_same {m m' : Mem} {q q' : MainPc} {r r' : ListenerPc} (hq : q'.inSetup = q.inSetup)
    (hr : r'.inSetup = r.inSetup) : State.setup ⟨m', q', r'⟩ = State.setup ⟨m, q, r⟩ := by
  funext t; cases t <;> simp [State.setup, hq, hr]

theorem view_main (m m' : Mem) (q q' : MainPc) (r : ListenerPc) : State.view ⟨m', q', r⟩ =
    ⟨m', Function.update (State.setup ⟨m, q, r⟩) .main q'.inSetup, q'.stage, r = .finished⟩ := by
  unfold State.view
  congr 1
  funext t; cases t <;> simp [State.setup, Function.update]

theorem view_listener (m m' : Mem) (q : MainPc) (r r' : ListenerPc) : State.view ⟨m', q, r'⟩ =
    ⟨m', Function.update (State.setup ⟨m, q, r⟩) .listener r'.inSetup, q.stage, r' = .finished⟩ := by
  unfold State.view
  congr 1
  funext t; cases t <;> simp [State.setup, Function.update]

theorem inSetup_eq {q : MainPc} {r : SetupPc} (h : q.inSetup = some r) : q = .connect (.setup r) := by
  cases q with
  | connect q => cases q <;> simp_all [MainPc.inSetup]
  | _ => simp [MainPc.inSetup] at h

/-- The main thread in a set-up has no other stage. -/
theorem State.stage_rest (s : State) {r : SetupPc} (h : s.setup .main = some r) : s.main.stage = .rest := by
  rw [inSetup_eq h]; rfl

theorem stage_ended {q : MainPc} (h : q.stage = .ended) : q = .ended := by
  cases q with
  | loop => cases h
  | reap q after => cases q <;> cases h
  | connect q => cases q <;> cases h
  | list q => cases q <;> cases h
  | terminate id q => cases q <;> cases h
  | send id text q => cases q <;> cases h
  | exit q => cases q <;> cases h
  | ended => rfl

/-- The main thread steps. -/
theorem step_main {q q' : MainPc} {r : ListenerPc} (h : mainStep E m (r = .finished) ch q = some (op, q')) :
    Move (State.view ⟨m, q, r⟩) (.main ch) (State.view ⟨m.apply .main op, q', r⟩) := by
  rw [view_main m (m.apply .main op) q q' r]
  cases hq : q.inSetup with
  | some x =>
    obtain rfl := inSetup_eq hq
    obtain ⟨⟨op', f⟩, hf, he⟩ := Option.map_eq_some_iff.1 h
    obtain ⟨⟨op'', g⟩, hg, he'⟩ := Option.map_eq_some_iff.1 hf
    cases he'; cases he
    obtain ⟨hm, hk⟩ := setup_move hg
    have hmove : Move (State.view ⟨m, .connect (.setup x), r⟩) (.main ch) ⟨m.apply .main op,
        Function.update (State.setup ⟨m, .connect (.setup x), r⟩) .main g.next, .rest, r = .finished⟩ :=
      .setup rfl rfl (.inl ⟨rfl, rfl⟩) hm
    cases g with
    | goto x' => exact hmove
    | ret => exact hmove
    | killed => exact absurd rfl hk
  | none =>
    rcases main_move hq h with ⟨fd, c, a, hst, rfl, rfl⟩ | ⟨hm, hn⟩
    · have hv : State.view ⟨m, q, r⟩ = ⟨m, State.setup ⟨m, q, r⟩, .opened fd c, r = .finished⟩ := by
        rw [← hst]; rfl
      exact hv ▸ .connected a hq
    · rw [hn, Function.update_eq_self_iff.2 hq.symm]
      exact .main rfl hq hm

/-- The listener thread steps. -/
theorem step_listener {q : MainPc} {r r' : ListenerPc} (h : listenerThread E m ch r = some (op, r')) :
    Move (State.view ⟨m, q, r⟩) (.listener ch) (State.view ⟨m.apply .listener op, q, r'⟩) := by
  -- the loop test, at its two places
  have loop {r x : ListenerPc} (hr : r.inSetup = none) (hf : r ≠ .finished) (hx : x.inSetup = none)
      (hx' : x ≠ .finished) (he : some (Op.skip, if m.running then x else .finished) = some (op, r')) :
      Move (State.view ⟨m, q, r⟩) (.listener ch) (State.view ⟨m.apply .listener op, q, r'⟩) := by
    cases he
    by_cases hrun : m.running
    · have hv : State.view ⟨m, q, x⟩ = State.view ⟨m, q, r⟩ := by
        have hsu : State.setup ⟨m, q, x⟩ = State.setup ⟨m, q, r⟩ := setup_same rfl (hx.trans hr.symm)
        simp [State.view, hsu, hf, hx']
      rw [if_pos hrun]
      exact hv ▸ .listen
    · have hv : State.view ⟨m, q, .finished⟩ = ⟨m, State.setup ⟨m, q, r⟩, q.stage, true⟩ := by
        have hsu : State.setup ⟨m, q, .finished⟩ = State.setup ⟨m, q, r⟩ := setup_same rfl hr.symm
        simp [State.view, hsu]
      rw [if_neg hrun]
      exact hv ▸ .listenerEnds hr (by simpa using hrun)
  cases r with
  | check => exact loop rfl (by simp) rfl (by simp) h
  | accept =>
    cases ch with
    | peer n a =>
      simp only [listenerThread] at h
      split at h <;> rename_i hn <;> cases h
      rw [view_listener m (m.apply .listener _) q .accept (.setup _)]
      exact .accepted a rfl rfl hn
    | fail => cases h; exact .listen
    | _ => simp [listenerThread] at h
  | failed => exact loop rfl (by simp) rfl (by simp) h
  | setup x =>
    obtain ⟨⟨op', f⟩, hf, he⟩ := Option.map_eq_some_iff.1 h
    cases he
    obtain ⟨hm, hk⟩ := setup_move hf
    have hmove : Move (State.view ⟨m, q, .setup x⟩) (.listener ch) ⟨m.apply .listener op,
        Function.update (State.setup ⟨m, q, .setup x⟩) .listener f.next, q.stage, false⟩ :=
      .setup rfl rfl (.inr rfl) hm
    rw [view_listener m (m.apply .listener op) q (.setup x)]
    cases f with
    | goto x' => exact hmove
    | ret => exact hmove
    | killed => exact absurd rfl hk
  | finished => simp [listenerThread] at h

/-- **Which thread steps**, and what it does. -/
theorem step_threads {s s' : State} {l : Label} (h : (chat E).step s l = some s') :
    s.main ≠ .ended ∧
      ((∃ ch op c, l = .main ch ∧ mainStep E s.mem (s.listener = .finished) ch s.main = some (op, c) ∧
          s' = ⟨s.mem.apply .main op, c, s.listener⟩) ∨
        (∃ ch op r, l = .listener ch ∧ listenerThread E s.mem ch s.listener = some (op, r) ∧
          s' = ⟨s.mem.apply .listener op, s.main, r⟩) ∨
        (∃ p ch q op f, l = .recv p ch ∧ s.mem.recv p = some q ∧ connRecvThread s.mem p ch q = some (op, f) ∧
          s' = ⟨(s.mem.apply (.recv p) op).setRecv p (f.lift id .finished .finished), s.main, s.listener⟩) ∨
        ∃ c e, l = .peer c e ∧ c < s.mem.opens ∧ s' = { s with mem := s.mem.setSock c (PeerEvent.on · e) }) := by
  simp only [chat, State.step] at h
  split at h
  · simp at h
  rename_i hq
  refine ⟨hq, ?_⟩
  cases l with
  | main ch =>
    obtain ⟨⟨op, c⟩, hf, rfl⟩ := Option.map_eq_some_iff.1 h
    exact .inl ⟨ch, op, c, rfl, hf, rfl⟩
  | listener ch =>
    obtain ⟨⟨op, r⟩, hf, rfl⟩ := Option.map_eq_some_iff.1 h
    exact .inr (.inl ⟨ch, op, r, rfl, hf, rfl⟩)
  | recv p ch =>
    simp only at h
    split at h <;> rename_i hp
    · obtain ⟨⟨op, f⟩, hf, rfl⟩ := Option.map_eq_some_iff.1 h
      exact .inr (.inr (.inl ⟨p, ch, _, op, f, rfl, hp, hf, rfl⟩))
    · simp at h
  | peer c e =>
    simp only at h
    split at h <;> cases h
    rename_i hc
    exact .inr (.inr (.inr ⟨c, e, rfl, hc, rfl⟩))

/-- **Every step is a move**, and none is taken once the process has ended. -/
theorem step_move {s s' : State} {l : Label} (h : (chat E).step s l = some s') :
    s.main.stage ≠ .ended ∧ Move s.view l s'.view := by
  obtain ⟨hq, h⟩ := step_threads h
  refine ⟨fun hk => hq (stage_ended hk), ?_⟩
  rcases h with ⟨ch, op, c, rfl, hf, rfl⟩ | ⟨ch, op, r, rfl, hf, rfl⟩ | ⟨p, ch, q, op, f, rfl, hp, hf, rfl⟩ |
    ⟨c, e, rfl, hc, rfl⟩
  · exact step_main hf
  · exact step_listener hf
  · exact .recv hp (recv_move hf)
  · exact .peer hc

/-- Runs whose steps all meet a condition on views. -/
abbrev ReachView (E : Env) (C : View → Label → Prop) : State → Prop :=
  (chat E).Reach fun s l => C s.view l

/-- **The invariant rule on views**, over what is already known of the run's states. -/
theorem view_inv {C : View → Label → Prop} {J I : View → Prop}
    (hJ : ∀ s, ReachView E C s → J s.view) (h0 : I State.init.view)
    (hs : ∀ v l v', v.stage ≠ .ended → J v → I v → C v l → Move v l v' → I v') {s : State}
    (h : ReachView E C s) : I s.view :=
  h.inv (I := fun s => I s.view) h0 fun s l _ hr hI hC hst =>
    hs _ l _ (step_move hst).1 (hJ s hr) hI hC (step_move hst).2

end Chat
