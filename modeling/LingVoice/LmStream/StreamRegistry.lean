import LingVoice.LmCore.Media
import LingVoice.Lib.Mealy
import Mathlib.Data.List.AList

/-!
# StreamRegistry — the streams of a node and of its rooms (`lm-stream`, `StreamRegistry`)

Beside the streams the registry keeps the ids of every room.  Registering an id again adds it to the list of the new
room and takes it off no other.  Of a stream the model has what the registry reads.
-/

namespace LingVoice.LmStream

open LmCore List

structure StreamId where
  sessionId : String
  trackId : String
  deriving DecidableEq

structure Registered where
  id : StreamId
  roomId : Option String
  kind : TrackKind
  deriving DecidableEq

/-- A room that is not in the index has no streams. -/
structure StreamRegistry where
  streams : AList fun _ : StreamId => Registered := ∅
  roomStreams : String → List StreamId := fun _ => []

inductive RegistryCall
  | register (stream : Registered)
  | unregister (id : StreamId)
  | unregisterSession (sessionId : String)

namespace StreamRegistry

variable (reg : StreamRegistry)

def register (stream : Registered) : StreamRegistry where
  streams := reg.streams.insert stream.id stream
  roomStreams room :=
    if stream.roomId = some room then reg.roomStreams room ++ [stream.id] else reg.roomStreams room

def unregister (id : StreamId) : StreamRegistry :=
  match reg.streams.lookup id with
  | none => reg
  | some stream =>
    { streams := reg.streams.erase id
      roomStreams := fun room =>
        if stream.roomId = some room then (reg.roomStreams room).filter (· ≠ id) else reg.roomStreams room }

def unregisterSession (sessionId : String) : StreamRegistry :=
  (reg.streams.keys.filter (·.sessionId = sessionId)).foldl unregister reg

def get (id : StreamId) : Option Registered :=
  reg.streams.lookup id

def getRoomPeerStreams (roomId excludeSession : String) (kind : TrackKind) : List Registered :=
  (((reg.roomStreams roomId).filter (·.sessionId ≠ excludeSession)).filterMap reg.get).filter (·.kind = kind)

def getRoomStreams (roomId : String) : List Registered :=
  (reg.roomStreams roomId).filterMap reg.get

def call : RegistryCall → StreamRegistry
  | .register stream => reg.register stream
  | .unregister id => reg.unregister id
  | .unregisterSession sessionId => reg.unregisterSession sessionId

def run (calls : List RegistryCall) : StreamRegistry :=
  calls.foldl call {}

/-- The queries return the streams that are registered with the room, each once. -/
structure Exact : Prop where
  room : ∀ room, (reg.getRoomStreams room).Nodup ∧
    ∀ s, s ∈ reg.getRoomStreams room ↔ reg.get s.id = some s ∧ s.roomId = some room
  peers : ∀ room session kind, (reg.getRoomPeerStreams room session kind).Nodup ∧
    ∀ s, s ∈ reg.getRoomPeerStreams room session kind ↔
      reg.get s.id = some s ∧ s.roomId = some room ∧ s.id.sessionId ≠ session ∧ s.kind = kind

/-- The call registers an id that a room has. -/
def Overwrites : RegistryCall → Prop
  | .register stream => ∃ old, reg.get stream.id = some old ∧ old.roomId ≠ none
  | _ => False

structure Indexed : Prop where
  keyed : ∀ id s, reg.get id = some s → s.id = id
  nodup : ∀ room, (reg.roomStreams room).Nodup
  mem : ∀ room id, id ∈ reg.roomStreams room ↔ ∃ s, reg.get id = some s ∧ s.roomId = some room

variable {reg : StreamRegistry} {stream : Registered} {c : RegistryCall}

theorem Indexed.exact (h : reg.Indexed) : reg.Exact := by
  obtain ⟨hkeyed, hnodup, hmem⟩ := h
  have hinj : ∀ id id' s, s ∈ reg.get id → s ∈ reg.get id' → id = id' :=
    fun id id' s h h' => (hkeyed id s h).symm.trans (hkeyed id' s h')
  refine ⟨fun room => ⟨(hnodup room).filterMap hinj, ?_⟩,
    fun room session kind => ⟨(((hnodup room).filter _).filterMap hinj).filter _, ?_⟩⟩
  · grind [getRoomStreams]
  · grind [getRoomPeerStreams]

theorem get_register (id : StreamId) :
    (reg.register stream).get id = if id = stream.id then some stream else reg.get id := by
  split
  · next heq => exact heq ▸ AList.lookup_insert _
  · next hne => exact AList.lookup_insert_ne hne

theorem Indexed.register (h : reg.Indexed) (hnew : ¬ reg.Overwrites (.register stream)) :
    (reg.register stream).Indexed := by
  obtain ⟨hkeyed, hnodup, hmem⟩ := h
  have hget := @get_register reg stream
  simp only [Overwrites, not_exists, not_and, not_not] at hnew
  refine ⟨by grind, fun room => ?_, fun room id => ?_⟩
  · grind [StreamRegistry.register, nodup_append]
  · grind [StreamRegistry.register]

theorem Indexed.unregister (h : reg.Indexed) (id : StreamId) : (reg.unregister id).Indexed := by
  obtain ⟨hkeyed, hnodup, hmem⟩ := h
  unfold StreamRegistry.unregister
  split
  · exact ⟨hkeyed, hnodup, hmem⟩
  · next stream hid =>
    have hid : reg.get id = some stream := hid
    have hget (other : StreamId) : (reg.streams.erase id).lookup other = if other = id then none else reg.get other := by
      split
      · next heq => exact heq ▸ AList.lookup_erase _ _
      · next hne => exact AList.lookup_erase_ne hne
    refine ⟨?_, fun room => ?_, fun room other => ?_⟩
    · grind [StreamRegistry.get]
    · grind
    · grind [StreamRegistry.get]

theorem Indexed.call (h : reg.Indexed) (hc : ¬ reg.Overwrites c) : (reg.call c).Indexed := by
  cases c with
  | register stream => exact h.register hc
  | unregister id => exact h.unregister id
  | unregisterSession sessionId => exact foldlRecOn _ _ h fun _ h id _ => h.unregister id

end StreamRegistry
end LingVoice.LmStream
