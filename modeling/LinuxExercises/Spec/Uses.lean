import LinuxExercises.Spec.Chat

/-!
# p2pchat: the records a step touches

For every place of every thread, the records whose fields the next step reads or writes,
or which it gives to `free`. A traversal of the list may touch every listed record.
-/

namespace Chat

def SetupPc.uses (m : Mem) : SetupPc → List Ptr
  | .link p _ | .create p _ | .rbFree p | .log p => [p]
  | .rbFind _ => m.listed
  | .rbUnlink p prev => p :: prev.toList
  | _ => []

/-- `conn_recv_thread` reads `sockfd` for `recv`, `ip` and `port` for its lines. -/
def RecvPc.uses (p : Ptr) (ch : Choice) : RecvPc → List Ptr
  | .top | .got _ | .mark => [p]
  | .inRecv _ => if ch = .eof ∨ ch = .fail then [p] else []
  | _ => []

def ReapPc.uses (m : Mem) : ReapPc → List Ptr
  | .scan | .find _ => m.listed
  | .join p | .free p | .log p => [p]
  | .unlink p prev => p :: prev.toList
  | _ => []

def ConnectPc.uses (m : Mem) : ConnectPc → List Ptr
  | .scan _ => m.listed
  | .logDup p => [p]
  | .setup q => q.uses m
  | _ => []

def ListPc.uses (m : Mem) : ListPc → List Ptr
  | .print => m.listed
  | _ => []

def TermPc.uses (m : Mem) : TermPc → List Ptr
  | .find | .find2 _ => m.listed
  | .send p | .shutdown p | .close p | .clear p | .join p | .free p => [p]
  | .unlink p prev => p :: prev.toList
  | _ => []

def SendPc.uses (m : Mem) : SendPc → List Ptr
  | .find => m.listed
  | .send p | .log p => [p]
  | _ => []

def ExitPc.uses : ExitPc → List Ptr
  | .pass cur | .next cur => cur.toList
  | .send p | .shutdown p | .close p | .clear p | .free p => [p]
  | _ => []

def MainPc.uses (m : Mem) : MainPc → List Ptr
  | .reap q _ => q.uses m
  | .connect q => q.uses m
  | .list q => q.uses m
  | .terminate _ q => q.uses m
  | .send _ _ q => q.uses m
  | .exit q => q.uses
  | .loop | .ended => []

def ListenerPc.uses (m : Mem) : ListenerPc → List Ptr
  | .setup q => q.uses m
  | _ => []

/-- **The records a step touches.** -/
def State.uses (s : State) : Label → List Ptr
  | .main _ => s.main.uses s.mem
  | .listener _ => s.listener.uses s.mem
  | .recv p ch => (s.mem.recv p).elim [] (RecvPc.uses p ch)
  | .peer _ _ => []

/-- No step from this state touches a released record. -/
def State.TouchesLive (E : Env) (s : State) : Prop :=
  ∀ l s', (chat E).step s l = some s' → ∀ p ∈ s.uses l, (s.mem.hist p).life ≠ .released

end Chat
