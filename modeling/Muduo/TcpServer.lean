import Muduo.TcpConnection

/-!
# `TcpServer` on several loops

The server, its thread pool, the connections, and the event loops they run on, after
`TcpServer.cpp`, `EventLoopThreadPool.cpp` and `EventLoop.cpp`.  A loop and the thread
that runs it are one number; the server's own loop is `loop_`, and any other number may
be a worker loop or a thread of the user.

`runInLoop` runs a functor at once on the loop's own thread and queues it otherwise.
Every execution of a connection's method is logged with the thread it ran on and the
loop of the connection, and so is every change of a poller.  Connections stay in the
model after their last owner is gone.

`send()` and `shutdown()` test `state_` and go on in a later step, between which other
threads run.  A method of a loop's own thread is one step.
-/

namespace Muduo

/-! ### `EventLoopThreadPool` -/

structure EventLoopThreadPool where
  baseLoop_ : Nat
  loops_ : List Nat
  next_ : Nat
  next_lt : loops_ ≠ [] → next_ < loops_.length

namespace EventLoopThreadPool

/-- The pool after `setThreadNumber(numThreads)` and `start`. -/
def start (baseLoop : Nat) (numThreads : Int) : EventLoopThreadPool where
  baseLoop_ := baseLoop
  loops_ := (List.range numThreads.toNat).map fun i => baseLoop + 1 + i
  next_ := 0
  next_lt := List.length_pos_of_ne_nil

def getNextLoop (p : EventLoopThreadPool) : Nat × EventLoopThreadPool :=
  if h : p.loops_ = [] then
    (p.baseLoop_, p)
  else
    have hnext := p.next_lt h
    (p.loops_[p.next_],
      { p with
        next_ := if p.loops_.length ≤ p.next_ + 1 then 0 else p.next_ + 1
        next_lt := by
          intro _
          split <;> omega })

end EventLoopThreadPool

/-! ### The server and its surroundings -/

structure TcpServer where
  loop_ : Nat
  name_ : String
  ipPort_ : String
  writeCompleteCallback_ : Bool
  threadPool_ : EventLoopThreadPool
  nextConnId_ : Int
  /-- The address of a connection's channel stands for the connection. -/
  connections_ : List (String × ChannelPtr)

/-- What a loop can find in `pendingFunctor_`. -/
inductive LoopFunctor where
  | conn (id : ChannelPtr) (f : ConnFunctor)
  | removeConnectionInLoop (id : ChannelPtr)
deriving DecidableEq

/-- The steps that belong to a connection's own thread; `handleEvent` stands for the
    `handle*` methods it runs. -/
inductive LoopStep where
  | connectEstablished
  | connectDestroyed
  | sendInLoop
  | shutdownInLoop
  | handleEvent
  | updateChannel
  | removeChannel
deriving DecidableEq

/-- The methods that any thread may call; both go on only for a connection that is
    `kConnected`. -/
inductive UserCall where
  | send (message : List UInt8)
  | shutdown
deriving DecidableEq

structure LogEntry where
  thread : Nat
  loop : Nat
  what : LoopStep
deriving DecidableEq

structure ServerSystem where
  server : TcpServer
  serverAlive : Bool
  conns : ChannelPtr → Option TcpConnection
  pollers : Nat → EpollPoller
  /-- `activeChannels_` of each loop, with the reported masks, from the next one on. -/
  activeChannels_ : Nat → List (ChannelPtr × EventMask)
  pendingFunctor_ : Nat → List LoopFunctor
  /-- The call of each thread that has found its connection `kConnected` and not gone on. -/
  calls : Nat → Option (ChannelPtr × UserCall)
  log : List LogEntry

inductive ServerEvent where
  /-- `accept()` returned `sockfd` on the server's loop; the connection gets a new address. -/
  | accept (sockfd : Nat) (id : ChannelPtr)
  /-- `epoll_wait` of a loop returned these descriptors and masks. -/
  | poll (loop : Nat) (ready : List (Nat × EventMask))
  /-- A loop handles its next active channel. -/
  | handleEvent (loop : Nat) (ownerAlive : Bool) (r : ReadResult) (w : WriteResult)
  /-- A loop runs its next pending functor. -/
  | runFunctor (loop : Nat) (w : WriteResult)
  /-- A thread calls a method of a connection, which reads `state_`. -/
  | load (thread : Nat) (id : ChannelPtr) (call : UserCall)
  /-- A thread goes on with its call. -/
  | proceed (thread : Nat) (w : WriteResult)
  /-- `~TcpServer`, which meets the connections in any order. -/
  | destroy (thread : Nat) (order : List (String × ChannelPtr))
deriving DecidableEq

namespace ServerSystem

/-- A started server with `numThreads` workers and no connection yet. -/
def start (loop : Nat) (name ipPort : String) (writeComplete : Bool) (numThreads : Int) :
    ServerSystem where
  server := ⟨loop, name, ipPort, writeComplete, EventLoopThreadPool.start loop numThreads, 1, []⟩
  serverAlive := true
  conns := fun _ => none
  pollers := fun _ => EpollPoller.new
  activeChannels_ := fun _ => []
  pendingFunctor_ := fun _ => []
  calls := fun _ => none
  log := []

def queueInLoop (s : ServerSystem) (loop : Nat) (f : LoopFunctor) : ServerSystem :=
  { s with pendingFunctor_ :=
      Function.update s.pendingFunctor_ loop (s.pendingFunctor_ loop ++ [f]) }

/-! ### Running a connection's methods -/

/-- The poller changes among the outputs of a method. -/
def pollerSteps (outputs : List Output) : List LoopStep :=
  outputs.filterMap fun
    | .updateChannel => some .updateChannel
    | .removeChannel => some .removeChannel
    | _ => none

/-- The state after a method of connection `id` ran on `thread` and left `c`. -/
def commit (s : ServerSystem) (thread : Nat) (id : ChannelPtr) (what : List LoopStep)
    (c : ConnCtx) : ServerSystem :=
  { s with
    conns := Function.update s.conns id (some c.conn)
    pollers := Function.update s.pollers c.conn.loop_ c.poller_
    log := s.log ++
      (what ++ pollerSteps c.outputs).map fun step => ⟨thread, c.conn.loop_, step⟩ }

/-- `connections_.erase(conn->name())`. -/
def eraseConnection (s : ServerSystem) (conn : TcpConnection) : ServerSystem :=
  { s with server := { s.server with
      connections_ := s.server.connections_.filter fun item => item.1 ≠ conn.name_ } }

/-- What a call out of a connection's method does to the server and the loops.  The
    `connectDestroyed` of a close on the server's own loop has run inside the method. -/
def react (thread : Nat) (id : ChannelPtr) (conn : TcpConnection) (s : ServerSystem) :
    Output → Option ServerSystem
  | .queueInLoop f => some (s.queueInLoop conn.loop_ (.conn id f))
  | .closeCallback =>
    if s.serverAlive then
      if thread = s.server.loop_ then
        let s := s.eraseConnection conn
        some (if thread = conn.loop_ then s
          else s.queueInLoop conn.loop_ (.conn id .connectDestroyed))
      else
        some (s.queueInLoop s.server.loop_ (.removeConnectionInLoop id))
    else
      none
  | _ => some s

/-- Run a method of connection `id` on `thread`. -/
def call (s : ServerSystem) (thread : Nat) (id : ChannelPtr) (what : List LoopStep)
    (method : ConnCtx → Except Fault ConnCtx) : Option ServerSystem := do
  let conn ← s.conns id
  let c ← returned (method ⟨conn, s.pollers conn.loop_, []⟩)
  c.outputs.foldlM (react thread id c.conn) (s.commit thread id what c)

/-- Run a functor bound to a connection; `w` is the result of the `write()` it may do. -/
def runConnFunctor (s : ServerSystem) (thread : Nat) (id : ChannelPtr) (w : WriteResult) :
    ConnFunctor → Option ServerSystem
  | .connectEstablished => s.call thread id [.connectEstablished] fun c => .ok c.connectEstablished
  | .connectDestroyed => s.call thread id [.connectDestroyed] fun c => .ok c.connectDestroyed
  | .sendInLoop message => s.call thread id [.sendInLoop] fun c => c.sendInLoop message w
  | .shutdownInLoop => s.call thread id [.shutdownInLoop] fun c => .ok c.shutdownInLoop
  | .writeCompleteCallback | .highWaterMarkCallback _ => some s

/-- `loop->runInLoop` on `thread`, for a functor bound to a connection. -/
def runInLoop (s : ServerSystem) (thread loop : Nat) (id : ChannelPtr) (w : WriteResult)
    (f : ConnFunctor) : Option ServerSystem :=
  if thread = loop then s.runConnFunctor thread id w f else some (s.queueInLoop loop (.conn id f))

/-- The thread's call is over. -/
def endCall (s : ServerSystem) (thread : Nat) : ServerSystem :=
  { s with calls := Function.update s.calls thread none }

/-- The rest of a call that has found the connection `kConnected`. -/
def proceed (s : ServerSystem) (thread : Nat) (id : ChannelPtr) (w : WriteResult) :
    UserCall → Option ServerSystem
  | .send message => do
    let conn ← s.conns id
    s.runInLoop thread conn.loop_ id w (.sendInLoop message)
  | .shutdown => s.call thread id [] fun c => .ok c.shutdownStore

/-! ### The server's methods -/

/-- The new connection of `newConnection`, at address `id`, and its entry in the map. -/
def createConnection (s : ServerSystem) (sockfd : Nat) (id : ChannelPtr) : ServerSystem :=
  let server := s.server
  let (ioLoop, pool) := server.threadPool_.getNextLoop
  let connName := server.name_ ++ "--" ++ server.ipPort_ ++ "##" ++ toString server.nextConnId_
  let conn := TcpConnection.new ioLoop server.loop_ connName sockfd id server.writeCompleteCallback_
  { s with
    server := { server with
      threadPool_ := pool
      nextConnId_ := Int.bmod (server.nextConnId_ + 1) (2 ^ 32)
      connections_ := (connName, id) :: server.connections_.filter fun item => item.1 ≠ connName }
    conns := Function.update s.conns id (some conn) }

/-- `newConnection`: `connectEstablished` is posted to the server's loop, also when the
    connection belongs to a worker. -/
def newConnection (s : ServerSystem) (thread sockfd : Nat) (id : ChannelPtr) :
    Option ServerSystem :=
  (s.createConnection sockfd id).runInLoop thread s.server.loop_ id (.wrote 0) .connectEstablished

def removeConnectionInLoop (s : ServerSystem) (thread : Nat) (id : ChannelPtr) :
    Option ServerSystem := do
  let conn ← s.conns id
  (s.eraseConnection conn).runInLoop thread conn.loop_ id (.wrote 0) .connectDestroyed

/-- One round of the loop in `~TcpServer`. -/
def destroyItem (thread : Nat) (s : ServerSystem) (item : String × ChannelPtr) :
    Option ServerSystem := do
  let conn ← s.conns item.2
  s.runInLoop thread conn.loop_ item.2 (.wrote 0) .connectDestroyed

def runFunctor (s : ServerSystem) (thread : Nat) (w : WriteResult) :
    LoopFunctor → Option ServerSystem
  | .conn id f => s.runConnFunctor thread id w f
  | .removeConnectionInLoop id =>
    if s.serverAlive then s.removeConnectionInLoop thread id else none

/-! ### Steps -/

/-- The channels `epoll_wait` reports for descriptors of a loop's interest list. -/
def reported (s : ServerSystem) (loop : Nat) (ready : List (Nat × EventMask)) :
    List (ChannelPtr × EventMask) :=
  ready.filterMap fun (fd, mask) =>
    ((s.pollers loop).interest fd).map fun event => (event.data, mask)

/-- What a step does, on a thread that may take it. -/
def perform (s : ServerSystem) : ServerEvent → Option ServerSystem
  | .accept sockfd id =>
    if s.serverAlive ∧ s.conns id = none then s.newConnection s.server.loop_ sockfd id else none
  | .poll loop ready =>
    if s.activeChannels_ loop = [] then
      some { s with activeChannels_ :=
        Function.update s.activeChannels_ loop (s.reported loop ready) }
    else
      none
  | .handleEvent loop ownerAlive r w =>
    match s.activeChannels_ loop with
    | [] => none
    | (id, mask) :: rest =>
      let s := { s with activeChannels_ := Function.update s.activeChannels_ loop rest }
      s.call loop id [.handleEvent] fun c => c.handleEvent ownerAlive mask r w
  | .runFunctor loop w =>
    match s.activeChannels_ loop, s.pendingFunctor_ loop with
    | [], f :: rest =>
      let s := { s with pendingFunctor_ := Function.update s.pendingFunctor_ loop rest }
      s.runFunctor loop w f
    | _, _ => none
  | .load thread id call => do
    let conn ← s.conns id
    if conn.state_ = .kConnected then
      some { s with calls := Function.update s.calls thread (some (id, call)) }
    else
      some s
  | .proceed thread w => do
    let (id, call) ← s.calls thread
    (s.endCall thread).proceed thread id w call
  | .destroy thread order =>
    if s.serverAlive ∧ order.Perm s.server.connections_ then
      (order.foldlM (destroyItem thread) s).map fun s => { s with serverAlive := false }
    else
      none

/-- A thread in a call does nothing else before it has gone on. -/
def isReady (s : ServerSystem) : ServerEvent → Bool
  | .accept _ _ => (s.calls s.server.loop_).isNone
  | .poll loop _ | .handleEvent loop _ _ _ | .runFunctor loop _ => (s.calls loop).isNone
  | .load thread _ _ | .destroy thread _ => (s.calls thread).isNone
  | .proceed thread _ => (s.calls thread).isSome

def step (s : ServerSystem) (e : ServerEvent) : Option ServerSystem :=
  if s.isReady e then s.perform e else none

theorem step_eq_some {s t : ServerSystem} {e : ServerEvent} (hstep : s.step e = some t) :
    s.isReady e = true ∧ s.perform e = some t := by
  simp only [step] at hstep
  split at hstep
  · rename_i hready
    exact ⟨hready, hstep⟩
  · cases hstep

end ServerSystem

end Muduo
