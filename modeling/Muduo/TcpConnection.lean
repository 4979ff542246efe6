import Muduo.Buffer
import Muduo.EpollPoller

/-!
# `TcpConnection`

The methods of `TcpConnection.cpp` as functions on a `ConnCtx`: the connection, the
poller of its loop, and the calls it makes out of itself, oldest first.  System calls
take their result as an argument.  Calls to user code and to other objects are
`Output`s; the one call whose effect comes back inside the same method is
`closeCallback_`, which runs `connectDestroyed` at once when the server and the
connection share a loop.
-/

namespace Muduo

inductive StateE where
  | kDisconnected
  | kConnecting
  | kConnected
  | kDisconnecting
deriving DecidableEq, Repr

/-- What a connection binds into a functor for a loop. -/
inductive ConnFunctor where
  | connectEstablished
  | connectDestroyed
  | sendInLoop (message : List UInt8)
  | shutdownInLoop
  | writeCompleteCallback
  | highWaterMarkCallback (size : Nat)
deriving DecidableEq

inductive Output where
  | connectionCallback (connected : Bool)
  | messageCallback
  | closeCallback
  | getsockopt
  | queueInLoop (f : ConnFunctor)
  | shutdownWrite
  | updateChannel
  | removeChannel
deriving DecidableEq

/-- The socket, as far as its output side goes: the bytes `write()` has taken, and how
    often `shutdown(SHUT_WR)` was called. -/
structure Socket where
  taken : List UInt8
  shutdownWrites : Nat
deriving DecidableEq

structure TcpConnection where
  /-- The connection's loop, `getLoop()`. -/
  loop_ : Nat
  /-- The loop of the server that `closeCallback_` is bound to. -/
  serverLoop_ : Nat
  name_ : String
  state_ : StateE
  socket_ : Socket
  channel_ : Channel
  /-- The address of `*channel_`. -/
  channelPtr : ChannelPtr
  inputBuffer_ : Buffer
  outputBuffer_ : Buffer
  highWaterMark_ : Int
  /-- Whether `writeCompleteCallback_` and `highWaterMarkCallback_` are set. -/
  writeCompleteCallback_ : Bool
  highWaterMarkCallback_ : Bool
deriving DecidableEq

namespace TcpConnection

/-- The constructor, with the callbacks the server sets afterwards. -/
def new (loop serverLoop : Nat) (name : String) (sockfd : Nat) (ptr : ChannelPtr)
    (writeComplete : Bool) : TcpConnection where
  loop_ := loop
  serverLoop_ := serverLoop
  name_ := name
  state_ := .kConnecting
  socket_ := ⟨[], 0⟩
  channel_ := Channel.new sockfd
  channelPtr := ptr
  inputBuffer_ := Buffer.new
  outputBuffer_ := Buffer.new
  highWaterMark_ := 64 * 1024 * 1024
  writeCompleteCallback_ := writeComplete
  highWaterMarkCallback_ := false

end TcpConnection

structure ConnCtx where
  conn : TcpConnection
  poller_ : EpollPoller
  outputs : List Output

namespace ConnCtx

def emit (c : ConnCtx) (o : Output) : ConnCtx := { c with outputs := c.outputs ++ [o] }

def setState (c : ConnCtx) (state : StateE) : ConnCtx :=
  { c with conn := { c.conn with state_ := state } }

def setInputBuffer (c : ConnCtx) (b : Buffer) : ConnCtx :=
  { c with conn := { c.conn with inputBuffer_ := b } }

def setOutputBuffer (c : ConnCtx) (b : Buffer) : ConnCtx :=
  { c with conn := { c.conn with outputBuffer_ := b } }

/-- The kernel takes `data` from a `write()`. -/
def take (c : ConnCtx) (data : List UInt8) : ConnCtx :=
  { c with conn := { c.conn with
      socket_ := { c.conn.socket_ with taken := c.conn.socket_.taken ++ data } } }

/-! ### The channel's methods -/

/-- Set `events_` and `Channel::update()`. -/
def setEvents (c : ConnCtx) (events : EventMask) : ConnCtx :=
  let (ch, p) := c.poller_.updateChannel c.conn.channelPtr
    { c.conn.channel_ with events_ := events }
  { conn := { c.conn with channel_ := ch }, poller_ := p, outputs := c.outputs ++ [.updateChannel] }

def enableReading (c : ConnCtx) : ConnCtx := c.setEvents (c.conn.channel_.events_ ||| kReadEvent)
def disableWriting (c : ConnCtx) : ConnCtx :=
  c.setEvents (c.conn.channel_.events_ &&& ~~~kWriteEvent)
def disableAll (c : ConnCtx) : ConnCtx := c.setEvents kNoneEvent

/-- `Channel::remove()`. -/
def remove (c : ConnCtx) : ConnCtx :=
  let (ch, p) := c.poller_.removeChannel c.conn.channelPtr c.conn.channel_
  { conn := { c.conn with channel_ := ch }, poller_ := p, outputs := c.outputs ++ [.removeChannel] }

/-- `Channel::tie(shared_from_this())`. -/
def tie (c : ConnCtx) : ConnCtx :=
  { c with conn := { c.conn with channel_ := { c.conn.channel_ with tied_ := true } } }

/-! ### Establishing and closing -/

/-- `connectionCallback_(shared_from_this())`; the user reads `connected()`. -/
def connectionCallback (c : ConnCtx) : ConnCtx :=
  c.emit (.connectionCallback (c.conn.state_ == .kConnected))

def connectEstablished (c : ConnCtx) : ConnCtx :=
  ((c.setState .kConnected).tie.enableReading).connectionCallback

def connectDestroyed (c : ConnCtx) : ConnCtx :=
  let c := if c.conn.state_ == .kConnected then
      ((c.setState .kDisconnected).disableAll).connectionCallback
    else
      c
  c.remove

/-- `closeCallback_`, which is `TcpServer::removeConnection`: with the server on the same
    loop the two `runInLoop` calls behind it run inline and end in `connectDestroyed`;
    otherwise the server's loop gets a functor. -/
def closeCallback (c : ConnCtx) : ConnCtx :=
  let c := c.emit .closeCallback
  if c.conn.serverLoop_ == c.conn.loop_ then c.connectDestroyed else c

def handleClose (c : ConnCtx) : ConnCtx :=
  (((c.setState .kDisconnected).disableAll).connectionCallback).closeCallback

def handleError (c : ConnCtx) : ConnCtx := c.emit .getsockopt

/-! ### Reading -/

/-- `handleRead`: the `ssize_t` that `readFd` returns is stored in a `size_t`. -/
def handleRead (c : ConnCtx) (r : ReadResult) : Except Fault ConnCtx := do
  let (ret, b) ← c.conn.inputBuffer_.readFd r
  let c := c.setInputBuffer b
  let n := toSizeT ret
  if 0 < n then
    .ok (c.emit .messageCallback)
  else if n = 0 then
    .ok c.handleClose
  else
    .ok c.handleError

/-! ### Writing -/

/-- What `shutdown()` does once it has found the connection `kConnected`. -/
def shutdownStore (c : ConnCtx) : ConnCtx :=
  (c.setState .kDisconnecting).emit (.queueInLoop .shutdownInLoop)

/-- `shutdown()`, when no other thread runs between its check and its store. -/
def shutdown (c : ConnCtx) : ConnCtx :=
  if c.conn.state_ == .kConnected then c.shutdownStore else c

def shutdownInLoop (c : ConnCtx) : ConnCtx :=
  if !c.conn.channel_.isWriting then
    { c with
      conn := { c.conn with socket_ :=
        { c.conn.socket_ with shutdownWrites := c.conn.socket_.shutdownWrites + 1 } }
      outputs := c.outputs ++ [.shutdownWrite] }
  else
    c

/-- `loop_->queueInLoop(std::bind(writeCompleteCallback_, ...))`, when it is set. -/
def queueWriteComplete (c : ConnCtx) : ConnCtx :=
  if c.conn.writeCompleteCallback_ then c.emit (.queueInLoop .writeCompleteCallback) else c

/-- What `handleWrite` does after a `write()` took `k > 0` bytes of the output buffer. -/
def afterWrite (c : ConnCtx) (k : Nat) : ConnCtx :=
  let c := (c.take (c.conn.outputBuffer_.readable.take k)).setOutputBuffer
    (c.conn.outputBuffer_.retrieve k)
  if c.conn.outputBuffer_.readableBytes == 0 then
    let c := c.disableWriting.queueWriteComplete
    if c.conn.state_ == .kDisconnecting then c.shutdownInLoop else c
  else
    c

def handleWrite (c : ConnCtx) (w : WriteResult) : ConnCtx :=
  if c.conn.channel_.isWriting then
    match w with
    | .wrote k => if 0 < k then c.afterWrite k else c
    | .failed _ => c
  else
    c

/-- Whether `sendInLoop` tries `write()` before it buffers. -/
def writesDirectly (c : ConnCtx) : Bool :=
  !c.conn.channel_.isWriting && c.conn.outputBuffer_.readableBytes == 0

/-- `errno == EPIPE || errno == ECONNRESET` after a failed `write()`. -/
def isFault : WriteResult → Bool
  | .failed .EPIPE => true
  | .failed .ECONNRESET => true
  | _ => false

/-- The direct `write()` of `sendInLoop`: the context and `nwrote`. -/
def directWrite (c : ConnCtx) (message : List UInt8) : WriteResult → ConnCtx × Nat
  | .wrote k =>
    let c := c.take (message.take k)
    (if message.length - k = 0 then c.queueWriteComplete else c, k)
  | .failed _ => (c, 0)

/-- The write of `sendInLoop`, skipped when output is pending. -/
def firstWrite (c : ConnCtx) (message : List UInt8) (w : WriteResult) : ConnCtx × Nat :=
  if c.writesDirectly then c.directWrite message w else (c, 0)

/-- `loop_->queueInLoop(std::bind(highWaterMarkCallback_, ...))`, when `remaining` more bytes
    cross the mark.  The mark is a signed `ssize_t` and is compared as a `size_t`. -/
def queueHighWaterMark (c : ConnCtx) (remaining : Nat) : ConnCtx :=
  let oldLen := c.conn.outputBuffer_.readableBytes
  if toSizeT c.conn.highWaterMark_ ≤ oldLen + remaining
      ∧ oldLen < toSizeT c.conn.highWaterMark_ ∧ c.conn.highWaterMarkCallback_ = true then
    c.emit (.queueInLoop (.highWaterMarkCallback (oldLen + remaining)))
  else
    c

/-- The part of `sendInLoop` that buffers `rest`, the bytes `write()` did not take. -/
def bufferRest (c : ConnCtx) (rest : List UInt8) : Except Fault ConnCtx := do
  let c := c.queueHighWaterMark rest.length
  let b ← c.conn.outputBuffer_.append rest
  let c := c.setOutputBuffer b
  .ok (if !c.conn.channel_.isWriting then c.enableReading else c)

/-- `sendInLoop(const void *message, size_t len)`; `w` is the result of its `write()`. -/
def sendInLoop (c : ConnCtx) (message : List UInt8) (w : WriteResult) : Except Fault ConnCtx :=
  if c.conn.state_ == .kDisconnected then
    .ok c
  else
    let (written, nwrote) := c.firstWrite message w
    let faultError := c.writesDirectly && isFault w
    if faultError = false ∧ 0 < message.length - nwrote then
      written.bufferRest (message.drop nwrote)
    else
      .ok written

/-! ### The channel's event callbacks -/

/-- The callbacks the constructor sets, with the results of the reads and writes they do. -/
def eventCallbacks (r : ReadResult) (w : WriteResult) : EventCallbacks ConnCtx where
  readCallback_ := some fun c => c.handleRead r
  writeCallback_ := some fun c => .ok (c.handleWrite w)
  closeCallback_ := some fun c => .ok c.handleClose
  errorCallback_ := some fun c => .ok c.handleError

/-- `channel_->handleEvent` for one reported mask. -/
def handleEvent (c : ConnCtx) (ownerAlive : Bool) (revents : EventMask) (r : ReadResult)
    (w : WriteResult) : Except Fault ConnCtx :=
  Muduo.handleEvent (eventCallbacks r w) c.conn.channel_.tied_ ownerAlive revents c

end ConnCtx

/-! ### A new connection -/

/-- What the server and the user choose for a new connection. -/
structure ConnConfig where
  loop : Nat
  serverLoop : Nat
  name : String
  sockfd : Nat
  channelPtr : ChannelPtr
  writeComplete : Bool
  highWater : Bool
  highWaterMark : Int
  poller : EpollPoller

/-- The connection before `connectEstablished`. -/
def ConnConfig.connecting (cfg : ConnConfig) : ConnCtx where
  conn := { TcpConnection.new cfg.loop cfg.serverLoop cfg.name cfg.sockfd cfg.channelPtr
      cfg.writeComplete with
    highWaterMark_ := cfg.highWaterMark
    highWaterMarkCallback_ := cfg.highWater }
  poller_ := cfg.poller
  outputs := []

def ConnConfig.established (cfg : ConnConfig) : ConnCtx := cfg.connecting.connectEstablished

/-- Defaults for a connection whose server shares its loop. -/
def ConnConfig.sameLoop : ConnConfig :=
  ⟨0, 0, "conn", 5, 0, true, false, 64 * 1024 * 1024, EpollPoller.new⟩

end Muduo
