import LingVoice.Lib.Lines
import Mathlib.Data.List.Induction

/-!
# LlHls — low-latency playlists (`lm-protocol/src/hls.rs`)

`LlHlsPlaylist` holds a sliding window of segments and the parts of the segment in progress.  `render` writes the
whole playlist, `render_delta` the part behind the first `skip` segments.  A playlist is the list of its lines here;
`text` gives them the form of the source, with the parameter `fixed3` for `{:.3}`.  The lines are read off the text
again, unless a URI has a comma or a line break in it (`parseText_join`).

A client reads a playlist by `parse`.  `EXT-X-MEDIA-SEQUENCE` is the number of the first segment, skipped segments
come before the listed ones and have numbers too.  `render_delta` has already added the skipped segments to the
media sequence, so they count twice.
-/

namespace LingVoice.LmProtocol

open Lib List

structure LlHlsConfig where
  segmentDuration : Float
  partialDuration : Float
  partHoldBack : Float
  canBlockReload : Bool
  maxSegments : Nat

structure LlHlsSegment where
  sequence : UInt64
  uri : String
  duration : Float
  independent : Bool

/-- The sequence of a part is its place in a deque, which has fewer than `2 ^ 63` of them. -/
structure LlHlsPartial where
  sequence : Nat
  uri : String
  duration : Float
  independent : Bool

structure LlHlsPlaylist where
  segments : List LlHlsSegment
  partials : List LlHlsPartial
  config : LlHlsConfig
  mediaSequence : UInt64
  preloadHintUri : Option String
  streamName : String

/-! ## Lines -/

inductive PlaylistLine
  | extM3u
  | version (n : Nat)
  | targetDuration (seconds : Nat)
  | partInf (partTarget : Float)
  | serverControl (canBlockReload : Bool) (partHoldBack : Float)
  | map (uri : String)
  | mediaSequence (n : Nat)
  | skip (skippedSegments : Nat)
  | independentSegments
  | extInf (duration : Float)
  | segmentUri (uri : String)
  | part (duration : Float) (uri : String) (independent : Bool)
  | preloadHint (uri : String)

/-- A line of text: a URI, a tag, or a tag with the value behind its colon. -/
inductive TextLine
  | resource (uri : String)
  | bare (tag : String)
  | tagged (tag value : String)

def TextLine.text : TextLine → String
  | .resource uri => uri
  | .bare tag => tag
  | .tagged tag value => tag ++ ":" ++ value

namespace PlaylistLine

def yesNo (b : Bool) : String :=
  if b then "YES" else "NO"

def toText (fixed3 : Float → String) : PlaylistLine → TextLine
  | .extM3u => .bare "#EXTM3U"
  | .version n => .tagged "#EXT-X-VERSION" (toString n)
  | .targetDuration seconds => .tagged "#EXT-X-TARGETDURATION" (toString seconds)
  | .partInf partTarget => .tagged "#EXT-X-PART-INF" (attributes [("PART-TARGET", fixed3 partTarget)])
  | .serverControl canBlockReload partHoldBack =>
    .tagged "#EXT-X-SERVER-CONTROL"
      (attributes [("CAN-BLOCK-RELOAD", yesNo canBlockReload), ("PART-HOLD-BACK", fixed3 partHoldBack)])
  | .map uri => .tagged "#EXT-X-MAP" (attributes [("URI", "\"" ++ uri ++ "\"")])
  | .mediaSequence n => .tagged "#EXT-X-MEDIA-SEQUENCE" (toString n)
  | .skip skippedSegments => .tagged "#EXT-X-SKIP" (attributes [("SKIPPED-SEGMENTS", toString skippedSegments)])
  | .independentSegments => .bare "#EXT-X-INDEPENDENT-SEGMENTS"
  | .extInf duration => .tagged "#EXTINF" (fixed3 duration ++ ",")
  | .segmentUri uri => .resource uri
  | .part duration uri independent =>
    .tagged "#EXT-X-PART"
      (attributes [("DURATION", fixed3 duration), ("URI", uri), ("INDEPENDENT", yesNo independent)])
  | .preloadHint uri => .tagged "#EXT-X-PRELOAD-HINT" (attributes [("TYPE", "PART"), ("URI", uri)])

def text (fixed3 : Float → String) (l : PlaylistLine) : String :=
  (l.toText fixed3).text ++ "\n"

end PlaylistLine

/-! ## The playlist -/

namespace LlHlsPlaylist

def new (config : LlHlsConfig) (streamName : String) : LlHlsPlaylist :=
  { segments := []
    partials := []
    config := config
    mediaSequence := 0
    preloadHintUri := none
    streamName := streamName }

/-- The loop of the sliding window, with the media sequence. -/
def slide (maxSegments : Nat) : List LlHlsSegment → UInt64 → List LlHlsSegment × UInt64
  | [], mediaSequence => ([], mediaSequence)
  | segment :: rest, mediaSequence =>
    if maxSegments < (segment :: rest).length then
      slide maxSegments rest (mediaSequence + 1)
    else
      (segment :: rest, mediaSequence)

/-- `add_segment`; the parts are cleared, the preload hint is not. -/
def addSegment (p : LlHlsPlaylist) (uri : String) (duration : Float) (independent : Bool) : LlHlsPlaylist :=
  let segment : LlHlsSegment :=
    { sequence := p.mediaSequence + UInt64.ofNat p.segments.length
      uri := uri
      duration := duration
      independent := independent }
  let (segments, mediaSequence) := slide p.config.maxSegments (p.segments ++ [segment]) p.mediaSequence
  { p with segments := segments, mediaSequence := mediaSequence, partials := [] }

def partUri (streamName : String) (n : Nat) : String :=
  streamName ++ "_part" ++ toString n ++ ".m4s"

def addPartial (p : LlHlsPlaylist) (uri : String) (duration : Float) (independent : Bool) : LlHlsPlaylist :=
  let seq := p.partials.length
  let part : LlHlsPartial :=
    { sequence := seq
      uri := uri
      duration := duration
      independent := independent }
  { p with partials := p.partials ++ [part], preloadHintUri := some (partUri p.streamName (seq + 1)) }

def segmentLines (segment : LlHlsSegment) : List PlaylistLine :=
  (if segment.independent then [.independentSegments] else []) ++ [.extInf segment.duration, .segmentUri segment.uri]

def partLines (p : LlHlsPlaylist) : List PlaylistLine :=
  p.partials.map (fun part => .part part.duration part.uri part.independent) ++
    p.preloadHintUri.toList.map .preloadHint

def renderLines (p : LlHlsPlaylist) : List PlaylistLine :=
  [.extM3u, .version 6, .targetDuration p.config.segmentDuration.ceil.toUInt32.toNat,
    .partInf p.config.partialDuration, .serverControl p.config.canBlockReload p.config.partHoldBack,
    .map (p.streamName ++ "_init.mp4"), .mediaSequence p.mediaSequence.toNat] ++
    p.segments.flatMap segmentLines ++ p.partLines

def renderDeltaLines (p : LlHlsPlaylist) (skip : UInt64) : List PlaylistLine :=
  [.extM3u, .version 9, .targetDuration p.config.segmentDuration.ceil.toUInt32.toNat,
    .partInf p.config.partialDuration, .skip skip.toNat, .mediaSequence (p.mediaSequence + skip).toNat] ++
    (p.segments.zipIdx.flatMap fun (segment, i) =>
      if i < skip.toNat then [] else [.extInf segment.duration, .segmentUri segment.uri]) ++ p.partLines

def render (fixed3 : Float → String) (p : LlHlsPlaylist) : String :=
  String.join (p.renderLines.map (PlaylistLine.text fixed3))

def renderDelta (fixed3 : Float → String) (p : LlHlsPlaylist) (skip : UInt64) : String :=
  String.join ((p.renderDeltaLines skip).map (PlaylistLine.text fixed3))

end LlHlsPlaylist

/-! ## Reading a playlist -/

/-- What a client has read: the listed segments with their numbers, the parts, and the hint. -/
structure ParsedPlaylist (δ : Type) where
  segments : List (String × Nat)
  partials : List (δ × String × Bool)
  preloadHint : Option String

namespace ParsedPlaylist

def mediaSequence? : PlaylistLine → Option Nat
  | .mediaSequence n => some n
  | _ => none

def skip? : PlaylistLine → Option Nat
  | .skip n => some n
  | _ => none

def segmentUri? : PlaylistLine → Option String
  | .segmentUri uri => some uri
  | _ => none

def part? : PlaylistLine → Option (Float × String × Bool)
  | .part duration uri independent => some (duration, uri, independent)
  | _ => none

def preloadHint? : PlaylistLine → Option String
  | .preloadHint uri => some uri
  | _ => none

/-- The rules of HLS: the first segment of the playlist has the media sequence as its number, and skipped segments
are segments of the playlist. -/
def parse (lines : List PlaylistLine) : ParsedPlaylist Float :=
  let first := (lines.filterMap mediaSequence?).head?.getD 0
  let skipped := (lines.filterMap skip?).head?.getD 0
  { segments := (lines.filterMap segmentUri?).zipIdx (first + skipped)
    partials := lines.filterMap part?
    preloadHint := (lines.filterMap preloadHint?).head? }

/-- A delta update and the whole playlist agree: listed segments have the same numbers, the parts are the same, and
the hint is for the part after the ones that are listed. -/
structure Reconstructs {δ : Type} (streamName : String) (skip : Nat) (full delta : ParsedPlaylist δ) : Prop where
  segments : delta.segments = full.segments.drop skip
  partials : delta.partials = full.partials
  preloadHint : ∀ uri, delta.preloadHint = some uri →
    uri ∉ delta.partials.map (fun part => part.2.1) ∧
      uri = LlHlsPlaylist.partUri streamName delta.partials.length

end ParsedPlaylist

open ParsedPlaylist

/-! ## Reading the text -/

namespace TextLine

/-- How a client takes a line apart. -/
def read (line : List Char) : TextLine :=
  if line.head? ≠ some '#' then .resource (.ofList line)
  else if ':' ∈ line then .tagged (cut ':' line).1 (cut ':' line).2
  else .bare (.ofList line)

def Readable : TextLine → Prop
  | .resource uri => uri.toList.head? ≠ some '#'
  | .bare tag | .tagged tag _ => tag.toList.head? = some '#' ∧ ':' ∉ tag.toList

theorem read_text {l : TextLine} (h : l.Readable) : read l.text.toList = l := by
  cases l with
  | resource uri =>
    have huri : uri.toList.head? ≠ some '#' := h
    rw [text, read, if_pos huri, String.ofList_toList]
  | bare tag => simp [read, text, h.1, h.2]
  | tagged tag value =>
    have hline : (tag ++ ":" ++ value).toList = tag.toList ++ ':' :: value.toList := by simp
    rw [text, hline, read, if_neg (by simp [h.1]), if_pos (by simp), cut_append h.2]

def value? (tag : String) : TextLine → Option String
  | .tagged t value => if t = tag then some value else none
  | .bare _ | .resource _ => none

def attribute? (tag name : String) (l : TextLine) : Option String :=
  (l.value? tag).bind fun value => (readAttributes value).lookup name

theorem attribute?_tagged {value : String} {as : List (String × String)} (h : readAttributes value = as)
    (tag name : String) : (tagged tag value).attribute? tag name = as.lookup name := by
  rw [attribute?, value?, if_pos rfl, Option.bind_some, h]

theorem attribute?_of_ne {t tag : String} (h : t ≠ tag) (name value : String) :
    (tagged t value).attribute? tag name = none := by
  rw [attribute?, value?, if_neg h, Option.bind_none]

theorem attribute?_bare (tag name t : String) : (bare t).attribute? tag name = none := by
  rw [attribute?, value?, Option.bind_none]

theorem attribute?_resource (tag name uri : String) : (resource uri).attribute? tag name = none := by
  rw [attribute?, value?, Option.bind_none]

def number (digits : String) : Nat :=
  Nat.ofDigitChars 10 digits.toList 0

def mediaSequence? (l : TextLine) : Option Nat :=
  (l.value? "#EXT-X-MEDIA-SEQUENCE").map number

def skip? (l : TextLine) : Option Nat :=
  (l.attribute? "#EXT-X-SKIP" "SKIPPED-SEGMENTS").map number

/-- Empty lines are skipped. -/
def segmentUri? : TextLine → Option String
  | .resource uri => if uri = "" then none else some uri
  | _ => none

def part? (l : TextLine) : Option (String × String × Bool) := do
  let duration ← l.attribute? "#EXT-X-PART" "DURATION"
  let uri ← l.attribute? "#EXT-X-PART" "URI"
  let independent ← l.attribute? "#EXT-X-PART" "INDEPENDENT"
  return (duration, uri, independent = "YES")

def preloadHint? (l : TextLine) : Option String :=
  l.attribute? "#EXT-X-PRELOAD-HINT" "URI"

end TextLine

def ParsedPlaylist.parseText (text : String) : ParsedPlaylist String :=
  let lines := (lines text).map TextLine.read
  let first := (lines.filterMap TextLine.mediaSequence?).head?.getD 0
  let skipped := (lines.filterMap TextLine.skip?).head?.getD 0
  { segments := (lines.filterMap TextLine.segmentUri?).zipIdx (first + skipped)
    partials := lines.filterMap TextLine.part?
    preloadHint := (lines.filterMap TextLine.preloadHint?).head? }

/-- The playlist with its durations as they are written. -/
def ParsedPlaylist.inText (fixed3 : Float → String) (q : ParsedPlaylist Float) : ParsedPlaylist String :=
  { segments := q.segments
    partials := q.partials.map (Prod.map fixed3 id)
    preloadHint := q.preloadHint }

namespace PlaylistLine

/-- A text without commas and line breaks. -/
def Unbroken (part : String) : Prop :=
  ',' ∉ part.toList ∧ '\n' ∉ part.toList

/-- No URI and no duration breaks the line. -/
def Plain (fixed3 : Float → String) : PlaylistLine → Prop
  | .partInf d | .serverControl _ d | .extInf d => Unbroken (fixed3 d)
  | .segmentUri uri => '\n' ∉ uri.toList ∧ uri ≠ "" ∧ uri.toList.head? ≠ some '#'
  | .part d uri _ => Unbroken (fixed3 d) ∧ Unbroken uri
  | .map uri | .preloadHint uri => Unbroken uri
  | _ => True

variable {fixed3 : Float → String} {l : PlaylistLine}

theorem readable_toText (h : l.Plain fixed3) : (l.toText fixed3).Readable := by
  cases l with
  | segmentUri uri => exact h.2.2
  | _ => exact ⟨by decide, by decide⟩

theorem newline_notMem_text (h : l.Plain fixed3) : '\n' ∉ (l.toText fixed3).text.toList := by
  cases l with
  | segmentUri uri => exact h.1
  | part d uri independent =>
    cases independent with
    | false | true => simp_all [toText, TextLine.text, attributes, Plain, Unbroken, yesNo]
  | serverControl canBlockReload d =>
    cases canBlockReload with
    | false | true => simp_all [toText, TextLine.text, attributes, Plain, Unbroken, yesNo]
  | _ => simp_all [toText, TextLine.text, attributes, Plain, Unbroken]

/-! A client reads the same off a line and off its text. -/

open TextLine

theorem mediaSequence_toText : (l.toText fixed3).mediaSequence? = ParsedPlaylist.mediaSequence? l := by
  cases l with
  | _ => simp [TextLine.mediaSequence?, ParsedPlaylist.mediaSequence?, value?, toText, number]

theorem skip_toText : (l.toText fixed3).skip? = ParsedPlaylist.skip? l := by
  cases l with
  | skip n =>
    have hread := @readAttributes_attributes [("SKIPPED-SEGMENTS", toString n)] (by simp) (by simp) (by simp)
    simp only [TextLine.skip?, toText, attribute?_tagged hread]
    simp [ParsedPlaylist.skip?, number]
  | _ => simp [TextLine.skip?, ParsedPlaylist.skip?, toText, attribute?_of_ne, attribute?_bare, attribute?_resource]

theorem segmentUri_toText (h : l.Plain fixed3) :
    (l.toText fixed3).segmentUri? = ParsedPlaylist.segmentUri? l := by
  cases l with
  | segmentUri uri => exact if_neg h.2.1
  | _ => rfl

theorem part_toText (h : l.Plain fixed3) :
    (l.toText fixed3).part? = (ParsedPlaylist.part? l).map (Prod.map fixed3 id) := by
  cases l with
  | part d uri independent =>
    have hyes : ',' ∉ (yesNo independent).toList := by
      cases independent with
      | false | true => decide
    have hread := @readAttributes_attributes
      [("DURATION", fixed3 d), ("URI", uri), ("INDEPENDENT", yesNo independent)] (by simp) (by simp)
      (by simpa using ⟨h.1.1, h.2.1, hyes⟩)
    simp only [TextLine.part?, toText, attribute?_tagged hread]
    cases independent with
    | false | true => simp [ParsedPlaylist.part?, lookup_cons, yesNo]
  | _ => simp [TextLine.part?, ParsedPlaylist.part?, toText, attribute?_of_ne, attribute?_bare, attribute?_resource]

theorem preloadHint_toText (h : l.Plain fixed3) :
    (l.toText fixed3).preloadHint? = ParsedPlaylist.preloadHint? l := by
  cases l with
  | preloadHint uri =>
    have hread := @readAttributes_attributes [("TYPE", "PART"), ("URI", uri)] (by simp) (by simp) (by simpa using h.1)
    simp only [TextLine.preloadHint?, toText, attribute?_tagged hread]
    simp [ParsedPlaylist.preloadHint?, lookup_cons]
  | _ => simp [TextLine.preloadHint?, ParsedPlaylist.preloadHint?, toText, attribute?_of_ne, attribute?_bare, attribute?_resource]

end PlaylistLine

open PlaylistLine

section Text

variable {fixed3 : Float → String} {ls : List PlaylistLine} (h : ∀ l ∈ ls, l.Plain fixed3)

include h

theorem lines_join :
    (lines (String.join (ls.map (text fixed3)))).map TextLine.read = ls.map (toText fixed3) ++ [.resource ""] := by
  induction ls with
  | nil => rfl
  | cons l ls ih =>
    rw [forall_mem_cons] at h
    rw [map_cons, String.join_cons, text, lines_append (newline_notMem_text h.1), map_cons, ih h.2,
      TextLine.read_text (readable_toText h.1)]
    rfl

/-- The text of plain lines is read as the lines are. -/
theorem parseText_join : parseText (String.join (ls.map (text fixed3))) = (parse ls).inText fixed3 := by
  have hread {β : Type} {f : TextLine → Option β} {g : PlaylistLine → Option β} (hblank : f (.resource "") = none)
      (hline : ∀ l ∈ ls, f (l.toText fixed3) = g l) :
      (ls.map (toText fixed3) ++ [TextLine.resource ""]).filterMap f = ls.filterMap g := by
    rw [filterMap_append, filterMap_map, filterMap_cons_none hblank, filterMap_nil, append_nil]
    exact filterMap_congr hline
  rw [parseText, lines_join h, parse, inText]
  simp only [hread rfl fun l _ => mediaSequence_toText, hread rfl fun l _ => skip_toText,
    hread rfl fun l hl => segmentUri_toText (h l hl), hread rfl fun l hl => part_toText (h l hl),
    hread rfl fun l hl => preloadHint_toText (h l hl), map_filterMap]

end Text

namespace LlHlsPlaylist

theorem parseText_render {fixed3 : Float → String} (p : LlHlsPlaylist) (h : ∀ l ∈ p.renderLines, l.Plain fixed3) :
    parseText (p.render fixed3) = (parse p.renderLines).inText fixed3 :=
  parseText_join h

theorem parseText_renderDelta {fixed3 : Float → String} (p : LlHlsPlaylist) (skip : UInt64)
    (h : ∀ l ∈ p.renderDeltaLines skip, l.Plain fixed3) :
    parseText (p.renderDelta fixed3 skip) = (parse (p.renderDeltaLines skip)).inText fixed3 :=
  parseText_join h

variable (p : LlHlsPlaylist)

def readParts : List (Float × String × Bool) :=
  p.partials.map fun part => (part.duration, part.uri, part.independent)

variable {α : Type}

theorem deltaLines_eq (segments : List LlHlsSegment) (skip start : Nat) :
    ((segments.zipIdx start).flatMap fun (segment, i) =>
      if i < skip then [] else [PlaylistLine.extInf segment.duration, .segmentUri segment.uri]) =
      (segments.drop (skip - start)).flatMap fun segment =>
        [PlaylistLine.extInf segment.duration, .segmentUri segment.uri] := by
  induction segments generalizing start with
  | nil => simp
  | cons segment segments ih =>
    rw [zipIdx_cons, flatMap_cons, ih]
    dsimp only
    by_cases hskipped : start < skip
    · rw [if_pos hskipped, nil_append]
      have hsub : skip - start = (skip - (start + 1)) + 1 := by omega
      rw [hsub, drop_succ_cons]
    · rw [if_neg hskipped]
      have hzero : skip - start = 0 := by omega
      have hzero' : skip - (start + 1) = 0 := by omega
      rw [hzero, hzero', drop_zero, drop_zero, flatMap_cons]

/-- A reading of the lines that both renderings end with. -/
theorem filterMap_partLines (f : PlaylistLine → Option α) :
    p.partLines.filterMap f =
      (p.partials.filterMap fun part => f (.part part.duration part.uri part.independent)) ++
        p.preloadHintUri.toList.filterMap fun uri => f (.preloadHint uri) := by
  rw [partLines, filterMap_append, filterMap_map, filterMap_map]
  rfl

/-- What a client reads, from what it reads before the parts. -/
theorem parse_append_partLines {front : List PlaylistLine} {first : Nat} {skipped : List Nat} {uris : List String}
    (hfirst : front.filterMap mediaSequence? = [first]) (hskip : front.filterMap skip? = skipped)
    (huris : front.filterMap segmentUri? = uris) (hparts : front.filterMap part? = [])
    (hhint : front.filterMap preloadHint? = []) :
    parse (front ++ p.partLines) =
      { segments := uris.zipIdx (first + skipped.head?.getD 0)
        partials := p.readParts
        preloadHint := p.preloadHintUri } := by
  have hnone : ∀ {α : Type} (f : PlaylistLine → Option α), (∀ d u i, f (.part d u i) = none) →
      (∀ u, f (.preloadHint u) = none) → (front ++ p.partLines).filterMap f = front.filterMap f := by
    intro α f hpart hhint
    simp only [filterMap_append, filterMap_partLines, hpart, hhint, filterMap_none, append_nil]
  have hreads : (front ++ p.partLines).filterMap part? = p.readParts := by
    rw [filterMap_append, hparts, filterMap_partLines]
    simp [part?, readParts]
  have hhints : (front ++ p.partLines).filterMap preloadHint? = p.preloadHintUri.toList := by
    rw [filterMap_append, hhint, filterMap_partLines]
    simp [preloadHint?]
  rw [parse, hreads, hhints, hnone mediaSequence? (fun _ _ _ => rfl) (fun _ => rfl),
    hnone skip? (fun _ _ _ => rfl) (fun _ => rfl), hnone segmentUri? (fun _ _ _ => rfl) (fun _ => rfl), hfirst, hskip,
    huris]
  cases p.preloadHintUri with
  | none | some uri => rfl

theorem filterMap_segmentLines (f : PlaylistLine → Option α) (hindependent : f .independentSegments = none)
    (segment : LlHlsSegment) :
    (segmentLines segment).filterMap f = [.extInf segment.duration, .segmentUri segment.uri].filterMap f := by
  rw [segmentLines, filterMap_append]
  cases segment.independent with
  | true =>
    rw [if_pos rfl, filterMap_cons_none hindependent]
    rfl
  | false => rfl

theorem parse_renderLines :
    parse p.renderLines =
      { segments := (p.segments.map (·.uri)).zipIdx p.mediaSequence.toNat
        partials := p.readParts
        preloadHint := p.preloadHintUri } := by
  refine @parse_append_partLines p _ p.mediaSequence.toNat [] _ ?_ ?_ ?_ ?_ ?_
  · rw [filterMap_append, filterMap_flatMap]
    simp [filterMap_segmentLines mediaSequence? rfl, filterMap_cons, mediaSequence?]
  · rw [filterMap_append, filterMap_flatMap]
    simp [filterMap_segmentLines skip? rfl, filterMap_cons, skip?]
  · rw [filterMap_append, filterMap_flatMap]
    simp [filterMap_segmentLines segmentUri? rfl, filterMap_cons, segmentUri?, map_eq_flatMap]
  · rw [filterMap_append, filterMap_flatMap]
    simp [filterMap_segmentLines part? rfl, filterMap_cons, part?]
  · rw [filterMap_append, filterMap_flatMap]
    simp [filterMap_segmentLines preloadHint? rfl, filterMap_cons, preloadHint?]

theorem parse_renderDeltaLines (skip : UInt64) :
    parse (p.renderDeltaLines skip) =
      { segments := ((p.segments.drop skip.toNat).map (·.uri)).zipIdx ((p.mediaSequence + skip).toNat + skip.toNat)
        partials := p.readParts
        preloadHint := p.preloadHintUri } := by
  rw [renderDeltaLines, deltaLines_eq, Nat.sub_zero]
  refine @parse_append_partLines p _ (p.mediaSequence + skip).toNat [skip.toNat] _ ?_ ?_ ?_ ?_ ?_
  · rw [filterMap_append, filterMap_flatMap]
    simp [filterMap_cons, mediaSequence?]
  · rw [filterMap_append, filterMap_flatMap]
    simp [filterMap_cons, skip?]
  · rw [filterMap_append, filterMap_flatMap]
    simp [filterMap_cons, segmentUri?, map_eq_flatMap]
  · rw [filterMap_append, filterMap_flatMap]
    simp [filterMap_cons, part?]
  · rw [filterMap_append, filterMap_flatMap]
    simp [filterMap_cons, preloadHint?]

/-! ## Runs -/

end LlHlsPlaylist

inductive LlHlsCall
  | addSegment (uri : String) (duration : Float) (independent : Bool)
  | addPartial (uri : String) (duration : Float) (independent : Bool)

namespace LlHlsPlaylist

def call (p : LlHlsPlaylist) : LlHlsCall → LlHlsPlaylist
  | .addSegment uri duration independent => p.addSegment uri duration independent
  | .addPartial uri duration independent => p.addPartial uri duration independent

def run (p : LlHlsPlaylist) (calls : List LlHlsCall) : LlHlsPlaylist :=
  calls.foldl call p

variable {n : Nat} {streamName : String}

theorem repr_ne_zero (hpos : 0 < n) : n.repr ≠ (0).repr := by
  intro h
  have hdigits : Nat.toDigits 10 n = ['0'] := by
    have htext := congrArg String.toList h
    simpa [Nat.repr] using htext
  by_cases hsmall : n < 10
  · have hdigit : ∀ k < 10, [k.digitChar] = ['0'] → k = 0 := by decide
    rw [Nat.toDigits_of_lt_base hsmall] at hdigits
    exact absurd (hdigit n hsmall hdigits) (Nat.ne_of_gt hpos)
  · -- a number above nine has two digits
    rw [Nat.toDigits_of_base_le (by decide) (Nat.le_of_not_lt hsmall)] at hdigits
    have hlength := congrArg length hdigits
    simp at hlength

/-- Only part 0 follows no parts. -/
theorem partUri_ne_zero (hpos : 0 < n) : partUri streamName n ≠ partUri streamName 0 := by
  intro h
  rw [partUri, partUri, String.append_left_inj, String.append_right_inj] at h
  exact repr_ne_zero hpos h

/-- The segments are numbered on from the media sequence. -/
def Numbered (segments : List LlHlsSegment) (mediaSequence : UInt64) : Prop :=
  segments.map (·.sequence) = (range segments.length).map fun i => mediaSequence + UInt64.ofNat i

/-- A segment that is held has the number that `render` gives it. -/
theorem slide_numbered {maxSegments : Nat} {segments : List LlHlsSegment} {mediaSequence : UInt64}
    (h : Numbered segments mediaSequence) :
    Numbered (slide maxSegments segments mediaSequence).1 (slide maxSegments segments mediaSequence).2 := by
  induction segments generalizing mediaSequence with
  | nil => rfl
  | cons segment rest ih =>
    rw [slide]
    split
    · apply ih
      rw [Numbered, length_cons, range_succ_eq_map, map_cons, map_cons, map_map] at h
      rw [Numbered, (cons.inj h).2]
      refine map_congr_left fun i _ => ?_
      rw [Function.comp_apply, Nat.succ_eq_one_add, UInt64.ofNat_add, ← UInt64.add_assoc]
      rfl
    · exact h

structure Reached (streamName : String) (calls : List LlHlsCall) (p : LlHlsPlaylist) : Prop where
  stream : p.streamName = streamName
  numbered : Numbered p.segments p.mediaSequence
  hint_none : p.preloadHintUri = none ↔ ∀ uri duration independent, .addPartial uri duration independent ∉ calls
  hint_some : ∀ uri, p.preloadHintUri = some uri →
    ∃ n, 0 < n ∧ uri = partUri streamName n ∧ (p.partials ≠ [] → n = p.partials.length)

theorem reached_call {calls : List LlHlsCall} {p : LlHlsPlaylist}
    (h : Reached streamName calls p) (c : LlHlsCall) : Reached streamName (calls ++ [c]) (p.call c) := by
  cases c with
  | addSegment uri duration independent =>
    refine ⟨h.stream, ?_, ?_, ?_⟩
    · apply slide_numbered
      rw [Numbered, map_append, h.numbered, length_append, length_singleton, range_succ, map_append]
      rfl
    · change p.preloadHintUri = none ↔ _
      rw [h.hint_none]
      simp
    · intro uri' huri
      rcases h.hint_some uri' huri with ⟨n, hpos, hn, _⟩
      exact ⟨n, hpos, hn, fun hne => absurd rfl hne⟩
  | addPartial uri duration independent =>
    refine ⟨h.stream, h.numbered, ?_, ?_⟩
    · change some _ = none ↔ _
      constructor
      · intro hnone
        cases hnone
      · intro hnone
        exact absurd (mem_append_right _ mem_cons_self) (hnone uri duration independent)
    · intro uri' huri
      obtain rfl : partUri p.streamName (p.partials.length + 1) = uri' := Option.some.inj huri
      refine ⟨p.partials.length + 1, Nat.succ_pos _, by rw [h.stream], ?_⟩
      intro _
      change _ = (p.partials ++ [_]).length
      rw [length_append, length_singleton]

theorem reached_run (config : LlHlsConfig) (streamName : String) (calls : List LlHlsCall) :
    Reached streamName calls ((new config streamName).run calls) := by
  induction calls using reverseRecOn with
  | nil =>
    refine ⟨rfl, rfl, ?_, ?_⟩
    · exact ⟨fun _ _ _ _ hmem => (nomatch hmem), fun _ => rfl⟩
    · intro uri huri
      cases huri
  | append_singleton calls c ih =>
    rw [run, foldl_append]
    exact reached_call ih c

theorem drop_zipIdx {α : Type} (l : List α) (k n : Nat) : (l.zipIdx n).drop k = (l.drop k).zipIdx (n + k) := by
  induction k generalizing l n with
  | zero => rfl
  | succ k ih =>
    cases l with
    | nil => rfl
    | cons a l =>
      rw [zipIdx_cons, drop_succ_cons, drop_succ_cons, ih, Nat.add_right_comm]
      rfl

theorem zipIdx_inj {uris : List String} {m : Nat} : uris.zipIdx m = uris.zipIdx n ↔ uris = [] ∨ m = n := by
  cases uris with
  | nil => simp
  | cons uri uris =>
    constructor
    · intro h
      exact .inr (Prod.mk.inj (cons.inj h).1).2
    · rintro (h | rfl)
      · cases h
      · rfl

/-- A delta update can be used exactly when it skips nothing or lists nothing, and the preload hint belongs to the
segment in progress and is not the name of one of its parts. -/
theorem renderDelta_reconstructs_iff (config : LlHlsConfig) (streamName : String) (calls : List LlHlsCall)
    (skip : UInt64) (hskip : skip.toNat ≤ ((new config streamName).run calls).segments.length) :
    Reconstructs streamName skip.toNat (parse ((new config streamName).run calls).renderLines)
        (parse (((new config streamName).run calls).renderDeltaLines skip)) ↔
      (skip = 0 ∨ skip.toNat = ((new config streamName).run calls).segments.length) ∧
        ((∀ uri duration independent, .addPartial uri duration independent ∉ calls) ∨
          ((new config streamName).run calls).partials ≠ [] ∧
            partUri streamName ((new config streamName).run calls).partials.length ∉
              ((new config streamName).run calls).partials.map (·.uri)) := by
  have hreached := reached_run config streamName calls
  obtain ⟨p, hp⟩ : ∃ p, (new config streamName).run calls = p := ⟨_, rfl⟩
  rw [hp] at hreached hskip ⊢
  rw [parse_renderLines, parse_renderDeltaLines]
  have hsegments :
      ((p.segments.drop skip.toNat).map (·.uri)).zipIdx ((p.mediaSequence + skip).toNat + skip.toNat) =
        ((p.segments.map (·.uri)).zipIdx p.mediaSequence.toNat).drop skip.toNat ↔
      skip = 0 ∨ skip.toNat = p.segments.length := by
    have hlisted : p.segments.length ≤ skip.toNat ↔ skip.toNat = p.segments.length := by omega
    rw [map_drop, drop_zipIdx, zipIdx_inj, drop_eq_nil_iff, length_map, hlisted, Nat.add_right_cancel_iff,
      UInt64.toNat_inj, UInt64.add_eq_left, or_comm]
  have hparts : p.readParts.map (fun part => part.2.1) = p.partials.map (·.uri) := by
    rw [readParts, map_map]
    rfl
  have hlength : p.readParts.length = p.partials.length := length_map _
  constructor
  · rintro ⟨hnumbers, _, hhint⟩
    refine ⟨hsegments.1 hnumbers, ?_⟩
    cases hsome : p.preloadHintUri with
    | none => exact .inl (hreached.hint_none.1 hsome)
    | some uri =>
      rcases hreached.hint_some uri hsome with ⟨n, hpos, rfl, hn⟩
      rcases hhint _ hsome with ⟨hnew, hnext⟩
      rw [hlength] at hnext
      rw [hparts] at hnew
      have hne : p.partials ≠ [] := by
        intro hnil
        rw [hnil] at hnext
        exact partUri_ne_zero hpos hnext
      rw [hn hne] at hnew
      exact .inr ⟨hne, hnew⟩
  · rintro ⟨hnumbers, hhint⟩
    refine ⟨hsegments.2 hnumbers, rfl, ?_⟩
    intro uri hsome
    rw [hparts, hlength]
    rcases hreached.hint_some uri hsome with ⟨n, _, rfl, hn⟩
    rcases hhint with hnone | ⟨hne, hnew⟩
    · rw [hreached.hint_none.2 hnone] at hsome
      cases hsome
    · rw [hn hne]
      exact ⟨hnew, rfl⟩

def llCalls : List LlHlsCall :=
  [.addSegment "a.m4s" 4 true, .addSegment "b.m4s" 4 true, .addPartial "s_part0.m4s" 1 true]

def llConfig : LlHlsConfig :=
  { segmentDuration := 4
    partialDuration := 1
    partHoldBack := 3
    canBlockReload := true
    maxSegments := 6 }

theorem renderDelta_all_skipped :
    Reconstructs "s" 2 (parse ((new llConfig "s").run llCalls).renderLines)
      (parse (((new llConfig "s").run llCalls).renderDeltaLines 2)) := by
  refine (renderDelta_reconstructs_iff llConfig "s" llCalls 2 (Nat.le_refl _)).2 ⟨.inr rfl, .inr ⟨?_, ?_⟩⟩
  · exact cons_ne_nil _ _
  · decide

/-- One of two segments is skipped.  The other one has number 1, and the delta update says 2. -/
theorem renderDelta_skip_one :
    (parse ((new llConfig "s").run llCalls).renderLines).segments = [("a.m4s", 0), ("b.m4s", 1)] ∧
      (parse (((new llConfig "s").run llCalls).renderDeltaLines 1)).segments = [("b.m4s", 2)] ∧
      ¬ Reconstructs "s" 1 (parse ((new llConfig "s").run llCalls).renderLines)
        (parse (((new llConfig "s").run llCalls).renderDeltaLines 1)) := by
  refine ⟨rfl, rfl, ?_⟩
  intro h
  have hsegments := h.segments
  revert hsegments
  decide

/-- When the third segment is complete, the hint is still for its second part. -/
example :
    (parse (((new llConfig "s").run (llCalls ++ [.addSegment "c.m4s" 4 true])).renderDeltaLines 0)).preloadHint =
      some (partUri "s" 1) ∧
      (parse (((new llConfig "s").run (llCalls ++ [.addSegment "c.m4s" 4 true])).renderDeltaLines 0)).partials = [] :=
  ⟨rfl, rfl⟩

end LlHlsPlaylist

end LingVoice.LmProtocol
