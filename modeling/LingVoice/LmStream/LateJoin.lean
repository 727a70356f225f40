import LingVoice.LmStream.MediaStream
import Mathlib.Data.List.Nodup

/-!
# LateJoin — what a sink that joins a running stream receives

A sink should be given the frames from the latest keyframe on, whole and in order.  The cache holds one group of at
most 2000 frames and begins a new one when that is full, so this is what happens exactly where the latest keyframe is
among the last 2000 frames.
-/

namespace LingVoice.LmStream

open LmCore LmDepacketizer List GopCache

/-! ## What a cache holds -/

namespace GopCache

section Caches

variable {gopCount maxFramesPerGop : Nat} {frame : MediaFrame} {frames : List MediaFrame} {gops : List Gop}

/-- What `saved` leaves: few groups that are neither empty nor long and have a keyframe at most in front, with the
frames saved last. -/
structure Caches (gopCount maxFramesPerGop : Nat) (saved : List MediaFrame) (gops : List Gop) : Prop where
  suffix : gops.flatMap Gop.frames <:+ saved
  ne_nil : saved ≠ [] → gops ≠ []
  few : gops.length ≤ gopCount
  short : ∀ gop ∈ gops, gop.frames ≠ [] ∧ gop.frameCount ≤ maxFramesPerGop
  keyframe : ∀ gop ∈ gops, ∀ frame ∈ gop.frames.tail, ¬ IsKeyframe frame

/-- A frame opens a group, for which the oldest may go, or is added to the last one. -/
theorem save_cases (hcount : 1 ≤ gopCount) (hmax : 1 ≤ maxFramesPerGop) (hfew : gops.length ≤ gopCount) :
    (∃ kept, kept <:+ gops ∧ kept.length < gopCount ∧
      save ⟨gopCount, maxFramesPerGop, gops⟩ frame = ⟨gopCount, maxFramesPerGop, kept ++ [⟨[frame]⟩]⟩) ∨
    ∃ front gop, gops = front ++ [gop] ∧ gop.frameCount < maxFramesPerGop ∧ ¬ IsKeyframe frame ∧
      save ⟨gopCount, maxFramesPerGop, gops⟩ frame = ⟨gopCount, maxFramesPerGop, front ++ [gop.save frame]⟩ := by
  have hne : gopCount ≠ 0 := Nat.ne_of_gt hcount
  have hroom : ∃ kept, kept <:+ gops ∧ kept.length < gopCount ∧
      rotate ⟨gopCount, maxFramesPerGop, gops⟩ = ⟨gopCount, maxFramesPerGop, kept ++ [Gop.new]⟩ := by
    refine ⟨_, ?_, ?_, rfl⟩
    · split
      exacts [tail_suffix _, suffix_rfl]
    · grind
  obtain ⟨kept, hkept, hlength, hrotate⟩ := hroom
  by_cases hkey : IsKeyframe frame
  · refine .inl ⟨kept, hkept, hlength, ?_⟩
    simp [save, isEnabled, hne, hkey, hrotate, append, Gop.new, Gop.save, Gop.frameCount, Nat.ne_of_gt hmax]
  rcases eq_nil_or_concat' gops with rfl | ⟨front, gop, rfl⟩
  · exact .inl ⟨[], nil_suffix, hcount, by simp [save, isEnabled, hne, hkey, Gop.new, Gop.save]⟩
  by_cases hfull : maxFramesPerGop ≤ gop.frameCount
  · refine .inl ⟨kept, hkept, hlength, ?_⟩
    simp [save, isEnabled, hne, hkey, hfull, hrotate, append, Gop.new, Gop.save]
  · exact .inr ⟨front, gop, rfl, not_le.1 hfull, hkey, by simp [save, isEnabled, hne, hkey, hfull, append]⟩

theorem Caches.save (h : Caches gopCount maxFramesPerGop frames gops) (hcount : 1 ≤ gopCount)
    (hmax : 1 ≤ maxFramesPerGop) (frame : MediaFrame) :
    ∃ gops', save ⟨gopCount, maxFramesPerGop, gops⟩ frame = ⟨gopCount, maxFramesPerGop, gops'⟩ ∧
      Caches gopCount maxFramesPerGop (frames ++ [frame]) gops' := by
  obtain ⟨⟨old, rfl⟩, -, hfew, hshort, hkeyframe⟩ := h
  rcases save_cases hcount hmax hfew with ⟨kept, ⟨gone, rfl⟩, hlength, heq⟩ | ⟨front, gop, rfl, hlt, hkey, heq⟩
  · refine ⟨_, heq, ⟨old ++ gone.flatMap Gop.frames, by simp⟩, by simp, ?_, ?_, ?_⟩
    · rw [length_append]
      exact hlength
    · grind [Gop.frameCount]
    · grind
  · refine ⟨_, heq, ⟨old, by simp [Gop.save]⟩, by simp, by simpa using hfew, ?_, ?_⟩
    · grind [Gop.frameCount, Gop.save]
    · grind [Gop.save]

theorem caches_foldl_save (hcount : 1 ≤ gopCount) (hmax : 1 ≤ maxFramesPerGop) (saved : List MediaFrame) :
    ∃ gops, saved.foldl save (new gopCount maxFramesPerGop) = ⟨gopCount, maxFramesPerGop, gops⟩ ∧
      Caches gopCount maxFramesPerGop saved gops := by
  induction saved using reverseRecOn with
  | nil => exact ⟨[], rfl, suffix_rfl, by simp, Nat.zero_le _, by simp, by simp⟩
  | append_singleton saved frame ih =>
    obtain ⟨gops, heq, h⟩ := ih
    rw [foldl_concat, heq]
    exact h.save hcount hmax frame

/-- Whatever is saved, the cache replays frames that were saved last, the last one among them, in groups of which
neither the number nor the length is too large and which a keyframe can only begin. -/
theorem replay_foldl_save (hcount : 1 ≤ gopCount) (hmax : 1 ≤ maxFramesPerGop) (saved : List MediaFrame) :
    let cache := saved.foldl GopCache.save (new gopCount maxFramesPerGop)
    cache.replay <:+ saved ∧ cache.replay.getLast? = saved.getLast? ∧ cache.gops.length ≤ gopCount ∧
      ∀ gop ∈ cache.gops, gop.frameCount ≤ maxFramesPerGop ∧ ∀ frame ∈ gop.frames.tail, ¬ IsKeyframe frame := by
  obtain ⟨gops, heq, ⟨old, rfl⟩, hne, hfew, hshort, hkeyframe⟩ := caches_foldl_save hcount hmax saved
  have hreplay : replay ⟨gopCount, maxFramesPerGop, gops⟩ = gops.flatMap Gop.frames :=
    if_neg (by simpa [isEnabled] using Nat.ne_of_gt hcount)
  simp only [heq, hreplay]
  refine ⟨suffix_append _ _, ?_, hfew, fun gop hgop => ⟨(hshort gop hgop).2, hkeyframe gop hgop⟩⟩
  cases gops with
  | nil =>
    have hnil : old ++ [].flatMap Gop.frames = [] := by_contra fun h => hne h rfl
    rw [hnil, flatMap_nil]
  | cons gop rest =>
    rw [getLast?_append_of_ne_nil]
    simp [(hshort gop mem_cons_self).1]

theorem replay_foldl_save_four :
    let cache := [true, true, false, false].map (MediaFrame.video .vp8 0 [] 7) |>.foldl GopCache.save (new 2 2)
    cache.replay <:+ [true, true, false, false].map (MediaFrame.video .vp8 0 [] 7) ∧
      cache.replay.getLast? = some (MediaFrame.video .vp8 0 [] 7 false) ∧ cache.gops.length ≤ 2 ∧
      ∀ gop ∈ cache.gops, gop.frameCount ≤ 2 ∧ ∀ frame ∈ gop.frames.tail, ¬ IsKeyframe frame :=
  replay_foldl_save (by decide) (by decide) _

end Caches
/-! ## What the cache of a video stream holds -/

/-- The cache of a video stream. -/
structure Single (cache : GopCache) : Prop where
  gopCount : cache.gopCount = 1
  maxFramesPerGop : cache.maxFramesPerGop = 2000
  length_le : cache.gops.length ≤ 1
  frames_le : ∀ gop ∈ cache.gops, gop.frames.length ≤ 2000

theorem single_foldl_save (saved : List MediaFrame) : (saved.foldl save (new 1 2000)).Single := by
  obtain ⟨gops, heq, h⟩ := caches_foldl_save (by decide : 1 ≤ 1) (by decide : 1 ≤ 2000) saved
  rw [heq]
  exact ⟨rfl, rfl, h.few, fun gop hgop => (h.short gop hgop).2⟩

def one (frames : List MediaFrame) : GopCache :=
  { gopCount := 1, maxFramesPerGop := 2000, gops := [⟨frames⟩] }

@[simp] theorem replay_one (frames : List MediaFrame) : (one frames).replay = frames := by
  simp [one, replay, isEnabled]

variable {cache : GopCache} {frame : MediaFrame} {frames rest : List MediaFrame}

theorem Single.cases (h : cache.Single) : cache = new 1 2000 ∨ ∃ frames, frames.length ≤ 2000 ∧ cache = one frames := by
  obtain ⟨gopCount, maxFramesPerGop, gops⟩ := cache
  obtain ⟨rfl, rfl, hlength, hframes⟩ := h
  match gops, hlength, hframes with
  | [], _, _ => exact .inl rfl
  | [gop], _, hframes => exact .inr ⟨gop.frames, hframes gop (mem_singleton.2 rfl), rfl⟩

/-- A keyframe is the first of its group, whatever was kept. -/
theorem save_keyframe (h : cache.Single) (hkey : IsKeyframe frame) : cache.save frame = one [frame] := by
  rcases h.cases with rfl | ⟨frames, -, rfl⟩
  · simp [save, isEnabled, new, hkey, rotate, append, one, Gop.new, Gop.save, Gop.frameCount]
  · simp [save, isEnabled, hkey, rotate, append, one, Gop.new, Gop.save, Gop.frameCount]

theorem save_one (hkey : ¬ IsKeyframe frame) :
    (one frames).save frame = one (if 2000 ≤ frames.length then [frame] else frames ++ [frame]) := by
  by_cases hfull : 2000 ≤ frames.length
  · simp [save, isEnabled, hkey, rotate, append, one, Gop.new, Gop.save, Gop.frameCount, hfull]
  · simp [save, isEnabled, hkey, append, one, Gop.save, Gop.frameCount, hfull]

theorem Single.length_replay_le (h : cache.Single) : cache.replay.length ≤ 2000 := by
  rcases h.cases with rfl | ⟨frames, hframes, rfl⟩
  · simp [replay, new]
  · rw [replay_one]
    exact hframes

theorem foldl_save_one (hrest : ∀ frame ∈ rest, ¬ IsKeyframe frame) (hlength : (frames ++ rest).length ≤ 2000) :
    rest.foldl save (one frames) = one (frames ++ rest) := by
  induction rest generalizing frames with
  | nil => rw [append_nil]; rfl
  | cons frame rest ih =>
    rw [forall_mem_cons] at hrest
    have hroom : ¬ 2000 ≤ frames.length := by
      rw [length_append, length_cons] at hlength
      omega
    rw [append_cons] at hlength ⊢
    rw [foldl_cons, save_one hrest.1, if_neg hroom, ih hrest.2 hlength]

/-- The cache replays the latest group of pictures as long as it is not longer than 2000 frames. -/
theorem replay_foldl_save_iff {front : List MediaFrame} {key : MediaFrame} (hkey : IsKeyframe key)
    (hrest : ∀ frame ∈ rest, ¬ IsKeyframe frame) :
    ((front ++ key :: rest).foldl save (new 1 2000)).replay = key :: rest ↔ rest.length < 2000 := by
  constructor
  · intro h
    have hle := (single_foldl_save (front ++ key :: rest)).length_replay_le
    rw [h, length_cons] at hle
    omega
  · intro h
    rw [foldl_append, foldl_cons, save_keyframe (single_foldl_save front) hkey,
      foldl_save_one hrest (by rw [length_append, length_singleton]; omega), replay_one]
    rfl

end GopCache

/-! ## What the sinks receive -/

/-- The frames that the packets complete. -/
def completed (depacketizer : BoxedDepacketizer) (pkts : List RtpPacket) : List MediaFrame :=
  (Lib.Mealy.run assemble depacketizer pkts).2.flatMap Option.toList

theorem completed_cons (depacketizer : BoxedDepacketizer) (pkt : RtpPacket) (rest : List RtpPacket) :
    completed depacketizer (pkt :: rest) =
      (assemble depacketizer pkt).2.toList ++ completed (assemble depacketizer pkt).1 rest := rfl

theorem completed_append (depacketizer : BoxedDepacketizer) (before after : List RtpPacket) :
    completed depacketizer (before ++ after) =
      completed depacketizer before ++ completed (Lib.Mealy.run assemble depacketizer before).1 after := by
  rw [completed, Lib.Mealy.run_append, flatMap_append]
  rfl

namespace MediaStream

variable {σ : Type}

def packets (cs : List (Call σ)) : List RtpPacket :=
  cs.filterMap fun
    | .pushPacket pkt => some pkt
    | _ => none

theorem packets_append (before after : List (Call σ)) : packets (before ++ after) = packets before ++ packets after :=
  filterMap_append

variable [DecidableEq σ]

/-- The sink is neither added nor removed. -/
def Spares (sink : σ) : Call σ → Prop
  | .addSourceSink s => s ≠ sink
  | .removeSourceSink s => s ≠ sink
  | .pushPacket _ => True

instance (sink : σ) (c : Call σ) : Decidable (Spares sink c) :=
  match c with
  | .addSourceSink s => inferInstanceAs (Decidable (s ≠ sink))
  | .removeSourceSink s => inferInstanceAs (Decidable (s ≠ sink))
  | .pushPacket _ => .isTrue trivial

/-- The depacketizer and the cache do not depend on the sinks. -/
theorem calls_state (stream : MediaStream σ) (cs : List (Call σ)) :
    (stream.calls cs).1.depacketizer = (Lib.Mealy.run assemble stream.depacketizer (packets cs)).1 ∧
      (stream.calls cs).1.gopCache =
        (completed stream.depacketizer (packets cs)).foldl save stream.gopCache := by
  induction cs generalizing stream with
  | nil => exact ⟨rfl, rfl⟩
  | cons c rest ih =>
    have hrest := ih (stream.call c).1
    cases c with
    | addSourceSink s | removeSourceSink s => exact hrest
    | pushPacket pkt =>
      have hdepacketizer :
          (stream.call (.pushPacket pkt)).1.depacketizer = (assemble stream.depacketizer pkt).1 := by
        rw [call, pushPacket_fst]
      have hcache : (stream.call (.pushPacket pkt)).1.gopCache =
          (assemble stream.depacketizer pkt).2.toList.foldl save stream.gopCache := by
        rw [call, pushPacket_fst]
      rw [hdepacketizer, hcache, ← foldl_append, ← completed_cons] at hrest
      exact hrest

/-- Who stands in the list of sinks several times receives every frame as many times. -/
theorem received_call {sink : σ} {c : Call σ} (hc : Spares sink c) (stream : MediaStream σ) :
    received sink (stream.call c).2 =
        (completed stream.depacketizer (packets [c])).flatMap (replicate (stream.sourceSinks.count sink)) ∧
      (stream.call c).1.sourceSinks.count sink = stream.sourceSinks.count sink := by
  cases c with
  | addSourceSink s =>
    have hs : s ≠ sink := hc
    simp [call, addSourceSink, received, packets, completed, hs, filter_map, Function.comp_def]
  | removeSourceSink s =>
    have hs : sink ≠ s := Ne.symm hc
    simp [call, removeSourceSink, received, packets, completed, hs, count_filter]
  | pushPacket pkt =>
    have hcompleted : completed stream.depacketizer (packets [Call.pushPacket (σ := σ) pkt]) =
        (assemble stream.depacketizer pkt).2.toList := by
      simp [packets, completed]
    rw [call, pushPacket_fst, pushPacket_deliveries, hcompleted]
    refine ⟨?_, rfl⟩
    cases (assemble stream.depacketizer pkt).2 with
    | none => rfl
    | some frame =>
      rw [Option.toList_some, flatMap_singleton, flatMap_singleton, received_map]

theorem received_calls {sink : σ} {cs : List (Call σ)} (hcs : ∀ c ∈ cs, Spares sink c) (stream : MediaStream σ) :
    received sink (stream.calls cs).2.flatten =
        (completed stream.depacketizer (packets cs)).flatMap (replicate (stream.sourceSinks.count sink)) ∧
      (stream.calls cs).1.sourceSinks.count sink = stream.sourceSinks.count sink := by
  induction cs generalizing stream with
  | nil => exact ⟨rfl, rfl⟩
  | cons c rest ih =>
    rw [forall_mem_cons] at hcs
    obtain ⟨hreceived, hcount⟩ := received_call hcs.1 stream
    obtain ⟨hreceived', hcount'⟩ := ih hcs.2 (stream.call c).1
    have hdepacketizer := (stream.calls_state [c]).1
    constructor
    · change received sink ((stream.call c).2 ++ ((stream.call c).1.calls rest).2.flatten) = _
      rw [← singleton_append, packets_append, completed_append, ← hdepacketizer, received_append,
        flatMap_append, hreceived, hreceived', hcount]
      rfl
    · exact hcount'.trans hcount

/-! ## A sink that joins -/

/-- A sink that joins receives what the cache holds and then every frame. -/
theorem received_join (codec : CodecType) {sink : σ} {before after : List (Call σ)}
    (hbefore : ∀ c ∈ before, Spares sink c) (hafter : ∀ c ∈ after, Spares sink c) :
    received sink ((new codec .video).calls (before ++ .addSourceSink sink :: after)).2.flatten =
      ((completed (createDepacketizer codec) (packets before)).foldl save (.new 1 2000)).replay ++
        completed (Lib.Mealy.run assemble (createDepacketizer codec) (packets before)).1 (packets after) := by
  obtain ⟨hreceived, hcount⟩ := received_calls hbefore (new codec .video)
  obtain ⟨hdepacketizer, hcache⟩ := calls_state (new codec .video) before
  -- the stream as the sink finds it
  generalize hstream : ((new codec .video).calls before).1 = stream at hcount hdepacketizer hcache
  have hnothing : received sink ((new codec .video).calls before).2.flatten = [] := by
    rw [hreceived]
    simp [new]
  have hreplay : received sink (stream.gopCache.replay.map fun frame => (sink, frame)) = stream.gopCache.replay := by
    simp [received, filter_map, Function.comp_def]
  have hone : (stream.addSourceSink sink).1.sourceSinks.count sink = 1 := by
    rw [addSourceSink, count_append, hcount]
    simp [new]
  have hlater : received sink ((stream.addSourceSink sink).1.calls after).2.flatten =
      completed stream.depacketizer (packets after) := by
    rw [(received_calls hafter _).1, hone]
    exact flatMap_singleton' _
  calc received sink ((new codec .video).calls (before ++ .addSourceSink sink :: after)).2.flatten
      = received sink (((new codec .video).calls before).2.flatten ++ ((stream.addSourceSink sink).2 ++
          ((stream.addSourceSink sink).1.calls after).2.flatten)) := by
        rw [calls, Lib.Mealy.run_append, ← calls, ← calls, hstream, flatten_append]
        rfl
    _ = stream.gopCache.replay ++ completed stream.depacketizer (packets after) := by
        rw [received_append, received_append, hnothing, hlater, addSourceSink, hreplay, nil_append]
    _ = _ := by
        rw [hcache, hdepacketizer]
        rfl

/-- What the sink receives is the latest group of pictures, whole, and every frame from there on, as long as the latest
keyframe is not more than 2000 frames back. -/
theorem received_join_eq_drop_iff (codec : CodecType) {sink : σ} {before after : List (Call σ)}
    (hbefore : ∀ c ∈ before, Spares sink c) (hafter : ∀ c ∈ after, Spares sink c)
    {front rest : List MediaFrame} {key : MediaFrame}
    (hcompleted : completed (createDepacketizer codec) (packets before) = front ++ key :: rest)
    (hkey : IsKeyframe key) (hrest : ∀ frame ∈ rest, ¬ IsKeyframe frame) :
    received sink ((new codec .video).calls (before ++ .addSourceSink sink :: after)).2.flatten =
        (completed (createDepacketizer codec) (packets (before ++ after))).drop front.length ↔
      rest.length < 2000 := by
  rw [received_join codec hbefore hafter, packets_append, completed_append, hcompleted, append_assoc,
    drop_left, append_cancel_right_eq]
  exact replay_foldl_save_iff hkey hrest

def vp8Packet (sequenceNumber : UInt16) (tag : UInt8) : RtpPacket :=
  { ssrc := 7, sequenceNumber := sequenceNumber, timestamp := 0, marker := true, payload := [0x10, tag], rid := "high" }

def vp8Frame (tag : UInt8) : MediaFrame :=
  { MediaFrame.video .vp8 0 [tag] 7 (vp8IsKeyframe [tag]) with rid := "high" }

/-- A keyframe and another frame, a sink that joins, one more frame. -/
theorem received_join_second_frame :
    let before : List (Call Nat) := [.pushPacket (vp8Packet 0 0), .pushPacket (vp8Packet 1 1)]
    let after : List (Call Nat) := [.pushPacket (vp8Packet 2 1)]
    received 1 ((new .vp8 .video).calls (before ++ .addSourceSink 1 :: after)).2.flatten =
      (completed (createDepacketizer .vp8) (packets (before ++ after))).drop 0 := by
  intro before after
  have hcompleted : completed (createDepacketizer .vp8) (packets before) = [] ++ vp8Frame 0 :: [vp8Frame 1] := by
    decide
  have hbefore : ∀ c ∈ before, Spares 1 c := by decide
  have hafter : ∀ c ∈ after, Spares 1 c := by decide
  exact (received_join_eq_drop_iff .vp8 hbefore hafter hcompleted (by decide) (by decide)).2 (by decide)

theorem assemble_vp8Packet {lastSeq : Option UInt16} {sequenceNumber : UInt16}
    (h : isStale lastSeq sequenceNumber = false) (tag : UInt8) :
    assemble (.vp8 ⟨[], lastSeq, 0, 0, false⟩) (vp8Packet sequenceNumber tag) =
      (.vp8 ⟨[], some sequenceNumber, 0, 0, false⟩, some (vp8Frame tag)) := by
  have hdescriptor : vp8ParseDescriptor [0x10, tag] = some ⟨1, true, 0⟩ := rfl
  simp [assemble, vp8Packet, BoxedDepacketizer.pushPacket, Vp8Depacketizer.pushPacket, hdescriptor, h]
  rfl

theorem completed_vp8Packets (start n : Nat) :
    completed (.vp8 ⟨[], some (UInt16.ofNat start), 0, 0, false⟩)
        ((range' (start + 1) n).map fun i => vp8Packet (UInt16.ofNat i) 1) = replicate n (vp8Frame 1) := by
  induction n generalizing start with
  | zero => rfl
  | succ n ih =>
    have htimely : isStale (some (UInt16.ofNat start)) (UInt16.ofNat (start + 1)) = false :=
      timely_some (Nat.lt_succ_self start) (by omega)
    rw [range'_succ, map_cons, completed_cons, assemble_vp8Packet htimely, ih, replicate_succ]
    rfl

/-- A keyframe and 2000 frames behind it: a sink that joins then does not receive the keyframe. -/
theorem received_join_long_gop : let before : List (Call Nat) :=
      (vp8Packet 0 0 :: (List.range' 1 2000).map fun i => vp8Packet (UInt16.ofNat i) 1).map .pushPacket
    completed (createDepacketizer .vp8) (packets before) = vp8Frame 0 :: List.replicate 2000 (vp8Frame 1) ∧
      received 1 ((new .vp8 .video).calls (before ++ [.addSourceSink 1])).2.flatten ≠
        vp8Frame 0 :: List.replicate 2000 (vp8Frame 1) := by
  intro before
  have hpackets : packets before = vp8Packet 0 0 :: (range' 1 2000).map fun i => vp8Packet (UInt16.ofNat i) 1 := by
    simp only [before, packets, filterMap_map]
    exact filterMap_some
  have hspares : ∀ c ∈ before, Spares 1 c := by
    intro c hc
    obtain ⟨pkt, -, rfl⟩ := mem_map.1 hc
    trivial
  constructor
  · rw [hpackets, completed_cons]
    exact congrArg _ (completed_vp8Packets 0 2000)
  · -- there are 2001 frames, and the cache holds 2000
    intro h
    have hlength := congrArg length h
    rw [received_join .vp8 hspares (by simp), length_append, length_cons, length_replicate] at hlength
    have hle := (single_foldl_save (completed (createDepacketizer .vp8) (packets before))).length_replay_le
    have hnone (depacketizer : BoxedDepacketizer) : (completed depacketizer (packets (σ := Nat) [])).length = 0 := rfl
    rw [hnone] at hlength
    omega

end MediaStream
end LingVoice.LmStream
