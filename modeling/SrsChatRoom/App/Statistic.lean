import SrsChatRoom.Lib.Dict
import SrsChatRoom.Lib.System

/-!
# The statistics (`srs_app_statistic.cpp`)

The statistics know the vhosts and the streams by an id and by a name, and the clients by their id.
A vhost and a stream are objects at an address. A vhost is never freed, a stream is freed when it
has neither a publisher nor a client, which ends the process if a client still refers to it.

The ids are random texts, so they are arguments of what creates an object.
-/

namespace SrsChatRoom.App.Statistic

/-! ## Requests -/

structure SrsRequest where
  vhost : String
  app : String
  stream : String
deriving DecidableEq

/-- `srs_path_filename`: the path without its extension. -/
def srsPathFilename (path : String) : String :=
  if '.' ∈ path.toList then
    String.ofList ((path.toList.reverse.dropWhile fun c => c ≠ '.').tail.reverse)
  else path

/-- `srs_generate_stream_url`: the default vhost is left out. -/
def srsGenerateStreamUrl (vhost app stream : String) : String :=
  (if "__defaultVhost__" ≠ vhost then vhost else "") ++ "/" ++ app ++ "/" ++
    srsPathFilename stream

/-- `get_stream_url` -/
def SrsRequest.getStreamUrl (req : SrsRequest) : String :=
  srsGenerateStreamUrl req.vhost req.app req.stream

/-! ## Objects -/

structure SrsStatisticVhost where
  id : String := ""
  vhost : String := ""
  nbStreams : ℤ := 0
  nbClients : ℤ := 0

/-- `vhost` is an address. -/
structure SrsStatisticStream where
  id : String
  vhost : ℕ
  url : String
  active : Bool := false
  publisherId : String := ""
  nbClients : ℤ := 0

/-- `stream` is an address. -/
structure SrsStatisticClient where
  stream : ℕ
deriving DecidableEq

/-- The maps, and the objects by their addresses. -/
structure SrsStatistic where
  vhosts : Dict String ℕ
  rvhosts : Dict String ℕ
  streams : Dict String ℕ
  rstreams : Dict String ℕ
  clients : Dict String SrsStatisticClient
  vhostAt : ℕ → SrsStatisticVhost
  nextVhost : ℕ
  streamAt : ℕ → Option SrsStatisticStream
  nextStream : ℕ

namespace SrsStatistic

def new : SrsStatistic :=
  ⟨.empty, .empty, .empty, .empty, .empty, fun _ => {}, 0, fun _ => none, 0⟩

/-- A change of a vhost. -/
def updateVhost (s : SrsStatistic) (v : ℕ) (f : SrsStatisticVhost → SrsStatisticVhost) :
    SrsStatistic :=
  { s with vhostAt := Function.update s.vhostAt v (f (s.vhostAt v)) }

/-- A change of a stream. -/
def updateStream (s : SrsStatistic) (i : ℕ) (f : SrsStatisticStream → SrsStatisticStream) :
    SrsStatistic :=
  { s with streamAt := Function.update s.streamAt i ((s.streamAt i).map f) }

/-! ## Vhosts and streams -/

/-- `create_vhost(req)`, with the id of a new vhost. -/
def createVhost (s : SrsStatistic) (req : SrsRequest) (id : String) : SrsStatistic × ℕ :=
  match s.rvhosts.get? req.vhost with
  | some v => (s, v)
  | none =>
    ({ s with
      rvhosts := s.rvhosts.set req.vhost s.nextVhost
      vhosts := s.vhosts.set id s.nextVhost
      vhostAt := Function.update s.vhostAt s.nextVhost { id := id, vhost := req.vhost }
      nextVhost := s.nextVhost + 1 }, s.nextVhost)

/-- `create_stream(vhost, req)`, with the id of a new stream. -/
def createStream (s : SrsStatistic) (vhost : ℕ) (req : SrsRequest) (id : String) :
    SrsStatistic × ℕ :=
  match s.rstreams.get? req.getStreamUrl with
  | some i => (s, i)
  | none =>
    ({ s with
      rstreams := s.rstreams.set req.getStreamUrl s.nextStream
      streams := s.streams.set id s.nextStream
      streamAt := Function.update s.streamAt s.nextStream
        (some { id := id, vhost := vhost, url := req.getStreamUrl })
      nextStream := s.nextStream + 1 }, s.nextStream)

/-- Both, as each of the events does it first. -/
def create (s : SrsStatistic) (req : SrsRequest) (vid sid : String) : SrsStatistic × ℕ × ℕ :=
  let (s, vhost) := s.createVhost req vid
  let (s, stream) := s.createStream vhost req sid
  (s, vhost, stream)

/-! ## Publishing -/

/-- `SrsStatisticStream::publish` -/
def publish (s : SrsStatistic) (i : ℕ) (id : String) : SrsStatistic :=
  match s.streamAt i with
  | none => s
  | some stream =>
    if stream.active then s
    else (s.updateStream i fun stream => { stream with publisherId := id, active := true }).updateVhost
      stream.vhost fun v => { v with nbStreams := v.nbStreams + 1 }

/-- `SrsStatisticStream::close` -/
def close (s : SrsStatistic) (i : ℕ) : SrsStatistic :=
  match s.streamAt i with
  | none => s
  | some stream =>
    if stream.active then
      (s.updateStream i fun stream => { stream with active := false }).updateVhost stream.vhost
        fun v => { v with nbStreams := v.nbStreams - 1 }
    else s

def onStreamPublish (s : SrsStatistic) (req : SrsRequest) (publisherId vid sid : String) :
    SrsStatistic :=
  let (s, _, stream) := s.create req vid sid
  s.publish stream publisherId

def onStreamClose (s : SrsStatistic) (req : SrsRequest) (vid sid : String) : SrsStatistic :=
  let (s, _, stream) := s.create req vid sid
  s.close stream

/-! ## Clients -/

/-- A client with a new id is attached to the stream. One that is known stays where it is. -/
def addClient (s : SrsStatistic) (id : String) (stream : ℕ) : SrsStatistic :=
  if s.clients.contains id then s else { s with clients := s.clients.set id ⟨stream⟩ }

/-- The counters of the stream and of the vhost. -/
def count (s : SrsStatistic) (stream vhost : ℕ) (n : ℤ) : SrsStatistic :=
  (s.updateStream stream fun stream => { stream with nbClients := stream.nbClients + n }).updateVhost
    vhost fun v => { v with nbClients := v.nbClients + n }

def onClient (s : SrsStatistic) (id : String) (req : SrsRequest) (vid sid : String) :
    SrsStatistic :=
  let (s, vhost, stream) := s.create req vid sid
  (s.addClient id stream).count stream vhost 1

/-- `cleanup_stream(stream)`, or nothing if the process ends: a client refers to the stream. -/
def cleanupStream (s : SrsStatistic) (i : ℕ) : Option SrsStatistic :=
  match s.streamAt i with
  | none => none
  | some stream =>
    if stream.active ∨ stream.nbClients > 0 then some s
    else if s.clients.entries.any fun e => e.2.stream = i then none
    else some { s with
      streams := s.streams.erase stream.id
      rstreams := s.rstreams.erase stream.url
      streamAt := Function.update s.streamAt i none }

/-- `on_disconnect(id, err)`, or nothing if the client refers to a freed stream. -/
def onDisconnect (s : SrsStatistic) (id : String) : Option SrsStatistic :=
  match s.clients.get? id with
  | none => some s
  | some client =>
    match s.streamAt client.stream with
    | none => none
    | some stream =>
      ({ s with clients := s.clients.erase id }.count client.stream stream.vhost (-1)).cleanupStream
        client.stream

end SrsStatistic

/-! ## Events -/

inductive Event
  | onClient (id : String) (req : SrsRequest) (vid sid : String)
  | onStreamPublish (req : SrsRequest) (publisherId vid sid : String)
  | onStreamClose (req : SrsRequest) (vid sid : String)
  | onDisconnect (id : String)

/-- An event, or nothing if the process ends. -/
def SrsStatistic.step (s : SrsStatistic) : Event → Option SrsStatistic
  | .onClient id req vid sid => some (s.onClient id req vid sid)
  | .onStreamPublish req publisherId vid sid => some (s.onStreamPublish req publisherId vid sid)
  | .onStreamClose req vid sid => some (s.onStreamClose req vid sid)
  | .onDisconnect id => s.onDisconnect id

end SrsChatRoom.App.Statistic
