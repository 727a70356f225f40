import Mathlib.Algebra.BigOperators.Group.List.Basic
import LingVoice.Lib.Crc32
import LingVoice.Lib.Endian
import LingVoice.Lib.Records

/-!
# Ogg — pages and packets of an Ogg stream (RFC 3533)

A page has a table of lacing values: bytes that say how its data is cut.  A value of 255 continues the packet, any
other ends it; a page may begin in the middle of a packet, and then says so.  `readPage` takes a page off the front of
a file and checks its checksum, `packets` puts the packets of a list of pages together.
-/

namespace LingVoice.Lib.Ogg

open List

/-! ## Fields -/

def readBytes (n : Nat) (data : Bytes) : Option (Bytes × Bytes) :=
  if data.length < n then none else some (data.take n, data.drop n)

def readLe (w : Nat) (data : Bytes) : Option (Nat × Bytes) :=
  (readBytes w data).map fun field => (ofLe field.1, field.2)

theorem readBytes_append (front rest : Bytes) : readBytes front.length (front ++ rest) = some (front, rest) := by
  rw [readBytes, if_neg (by simp), take_left, drop_left]

variable {w n : Nat} {data rest : Bytes} {pages : List Page} {wholes : List (List Bytes)}

theorem readLe_toLe (h : n < 256 ^ w) (rest : Bytes) : readLe w (toLe w n ++ rest) = some (n, rest) := by
  have hread := readBytes_append (toLe w n) rest
  rw [length_toLe] at hread
  rw [readLe, hread, Option.map_some, ofLe_toLe_of_lt h]

theorem length_of_readBytes {field : Bytes} (h : readBytes n data = some (field, rest)) :
    data.length = n + rest.length := by
  unfold readBytes at h
  split at h
  · cases h
  · cases h
    rw [length_drop]
    omega

theorem length_of_readLe (h : readLe w data = some (n, rest)) : data.length = w + rest.length := by
  obtain ⟨⟨field, rest'⟩, hread, hfield⟩ := Option.map_eq_some_iff.1 h
  cases hfield
  exact length_of_readBytes hread

/-! ## Pages -/

structure Page where
  headerType : UInt8
  granule : Int64
  serial : UInt32
  sequence : UInt32
  table : Bytes
  data : Bytes
  deriving DecidableEq, Repr

def tableSize (table : Bytes) : Nat :=
  (table.map UInt8.toNat).sum

namespace Page

def continued (page : Page) : Bool :=
  page.headerType &&& 0x01 != 0

/-- The page with this in the place of its checksum.  The length of the table is counted in one byte. -/
def bytes (page : Page) (checksum : UInt32) : Bytes :=
  [0x4F, 0x67, 0x67, 0x53] ++ (toLe 1 0 ++ (toLe 1 page.headerType.toNat ++ (toLe 8 page.granule.toUInt64.toNat ++
    (toLe 4 page.serial.toNat ++ (toLe 4 page.sequence.toNat ++ (toLe 4 checksum.toNat ++
      (toLe 1 page.table.length ++ (page.table ++ page.data))))))))

/-- The checksum is that of the page with zero in its place. -/
def checksum (page : Page) : UInt32 :=
  Crc32.ogg (page.bytes 0)

end Page

def readPage (data : Bytes) : Option (Page × Bytes) := do
  let (capture, data) ← readBytes 4 data
  guard (capture = [0x4F, 0x67, 0x67, 0x53])
  let (version, data) ← readLe 1 data
  guard (version = 0)
  let (headerType, data) ← readLe 1 data
  let (granule, data) ← readLe 8 data
  let (serial, data) ← readLe 4 data
  let (sequence, data) ← readLe 4 data
  let (checksum, data) ← readLe 4 data
  let (count, data) ← readLe 1 data
  let (table, data) ← readBytes count data
  let (body, data) ← readBytes (tableSize table) data
  let page : Page :=
    { headerType := UInt8.ofNat headerType
      granule := (UInt64.ofNat granule).toInt64
      serial := UInt32.ofNat serial
      sequence := UInt32.ofNat sequence
      table := table
      data := body }
  guard (page.checksum.toNat = checksum)
  some (page, data)

theorem length_lt_of_readPage (data : Bytes) (page : Page) (rest : Bytes)
    (h : readPage data = some (page, rest)) : rest.length < data.length := by
  -- each of the ten fields takes its bytes, the first one four
  simp only [readPage, Option.bind_eq_bind, Option.bind_eq_some_iff, Prod.exists, Option.some.injEq, Prod.mk.injEq] at h
  obtain ⟨_, _, h1, _, -, _, _, h2, _, -, _, _, h3, _, _, h4, _, _, h5, _, _, h6, _, _, h7, _, _, h8, _, _, h9,
    _, _, h10, _, -, -, rfl⟩ := h
  have := length_of_readBytes h1
  have := length_of_readLe h2
  have := length_of_readLe h3
  have := length_of_readLe h4
  have := length_of_readLe h5
  have := length_of_readLe h6
  have := length_of_readLe h7
  have := length_of_readLe h8
  have := length_of_readBytes h9
  have := length_of_readBytes h10
  omega

/-- A page whose table can be counted and accounts for its data is read back. -/
theorem readPage_bytes {page : Page} (htable : page.table.length < 256) (hdata : page.data.length = tableSize page.table)
    (rest : Bytes) : readPage (page.bytes page.checksum ++ rest) = some (page, rest) := by
  have hcapture (more : Bytes) :
      readBytes 4 ([0x4F, 0x67, 0x67, 0x53] ++ more) = some ([0x4F, 0x67, 0x67, 0x53], more) :=
    readBytes_append [0x4F, 0x67, 0x67, 0x53] more
  have htable' (more : Bytes) : readBytes page.table.length (page.table ++ more) = some (page.table, more) :=
    readBytes_append page.table more
  have hdata' : readBytes (tableSize page.table) (page.data ++ rest) = some (page.data, rest) := by
    rw [← hdata]
    exact readBytes_append page.data rest
  have hversion : 0 < 256 ^ 1 := by omega
  have hcount : page.table.length < 256 ^ 1 := htable
  have htype : page.headerType.toNat < 256 ^ 1 := page.headerType.toNat_lt
  have hgranule : page.granule.toUInt64.toNat < 256 ^ 8 := page.granule.toUInt64.toNat_lt
  have hserial : page.serial.toNat < 256 ^ 4 := page.serial.toNat_lt
  have hsequence : page.sequence.toNat < 256 ^ 4 := page.sequence.toNat_lt
  have hchecksum : page.checksum.toNat < 256 ^ 4 := page.checksum.toNat_lt
  simp only [Page.bytes, append_assoc]
  unfold readPage
  -- one field after the other
  refine Option.bind_eq_some_iff.2 ⟨_, hcapture _, ?_⟩
  refine Option.bind_eq_some_iff.2 ⟨(), rfl, ?_⟩
  refine Option.bind_eq_some_iff.2 ⟨_, readLe_toLe hversion _, ?_⟩
  refine Option.bind_eq_some_iff.2 ⟨(), rfl, ?_⟩
  refine Option.bind_eq_some_iff.2 ⟨_, readLe_toLe htype _, ?_⟩
  refine Option.bind_eq_some_iff.2 ⟨_, readLe_toLe hgranule _, ?_⟩
  refine Option.bind_eq_some_iff.2 ⟨_, readLe_toLe hserial _, ?_⟩
  refine Option.bind_eq_some_iff.2 ⟨_, readLe_toLe hsequence _, ?_⟩
  refine Option.bind_eq_some_iff.2 ⟨_, readLe_toLe hchecksum _, ?_⟩
  refine Option.bind_eq_some_iff.2 ⟨_, readLe_toLe hcount _, ?_⟩
  refine Option.bind_eq_some_iff.2 ⟨_, htable' _, ?_⟩
  refine Option.bind_eq_some_iff.2 ⟨_, hdata', ?_⟩
  simp only [UInt8.ofNat_toNat, UInt32.ofNat_toNat, UInt64.ofNat_toNat]
  exact Option.bind_eq_some_iff.2 ⟨(), if_pos rfl, rfl⟩

/-! ## Packets -/

/-- The data of a page cut by its table: the packets that end there and what is left of one that does not.  `pending` is
what the pages before have left. -/
def cut : Option Bytes → Bytes → Bytes → List Bytes × Option Bytes
  | pending, [], _ => ([], pending)
  | pending, lacing :: table, data =>
    let packet := pending.getD [] ++ data.take lacing.toNat
    if lacing < 255 then
      let rest := cut none table (data.drop lacing.toNat)
      (packet :: rest.1, rest.2)
    else
      cut (some packet) table (data.drop lacing.toNat)

/-- The packets of a stream; `none` when a page does not continue where the page before has left off. -/
def packets : Option Bytes → List Page → Option (List Bytes)
  | none, [] => some []
  | some _, [] => none
  | pending, page :: rest =>
    if page.continued = pending.isSome then
      let here := cut pending page.table page.data
      (packets here.2 rest).map (here.1 ++ ·)
    else
      none

def read (file : Bytes) : Option (List Bytes) :=
  (records readPage file).bind (packets none)

def lacing (n : Nat) : Bytes :=
  List.replicate (n / 255) 255 ++ [UInt8.ofNat (n % 255)]

@[simp] theorem length_lacing (n : Nat) : (lacing n).length = n / 255 + 1 := by
  simp [lacing]

theorem lacing_of_lt (h : n < 255) : lacing n = [UInt8.ofNat n] := by
  rw [lacing, Nat.div_eq_of_lt h, Nat.mod_eq_of_lt h]
  rfl

theorem lacing_add (n : Nat) : lacing (n + 255) = 255 :: lacing n := by
  rw [lacing, Nat.add_div_right n (by omega), Nat.add_mod_right, replicate_succ]
  rfl

theorem toNat_lacing (h : n < 255) : (UInt8.ofNat n).toNat = n := by
  have hsize : n < UInt8.size := Nat.lt_of_lt_of_le h (by decide)
  exact UInt8.toNat_ofNat_of_lt hsize

theorem tableSize_lacing (n : Nat) : tableSize (lacing n) = n := by
  have hlast : (UInt8.ofNat (n % 255)).toNat = n % 255 := toNat_lacing (Nat.mod_lt n (by omega))
  have hfull : ((255 : UInt8).toNat) = 255 := rfl
  rw [tableSize, lacing, map_append, sum_append, map_replicate, sum_replicate, map_singleton,
    sum_singleton, hlast, hfull]
  change n / 255 * 255 + n % 255 = n
  omega

theorem cut_lacing (pending : Option Bytes) (packet table data : Bytes) :
    cut pending (lacing packet.length ++ table) (packet ++ data) =
      ((pending.getD [] ++ packet) :: (cut none table data).1, (cut none table data).2) := by
  generalize hn : packet.length = n
  induction n using Nat.strong_induction_on generalizing pending packet with
  | _ n ih =>
    by_cases hlast : n < 255
    · have hvalue : (UInt8.ofNat n).toNat = packet.length := by rw [toNat_lacing hlast, hn]
      have hends : UInt8.ofNat n < 255 := by
        rw [UInt8.lt_iff_toNat_lt, toNat_lacing hlast]
        exact hlast
      rw [lacing_of_lt hlast, singleton_append, cut]
      simp only [hends, if_true, hvalue, take_left, drop_left]
    · -- 255 bytes and the rest
      obtain ⟨m, rfl⟩ : ∃ m, n = m + 255 := ⟨n - 255, by omega⟩
      have hfront : (packet.take 255).length = 255 := by
        rw [length_take, hn]
        omega
      have hcontinues : ¬ (255 : UInt8) < 255 := by decide
      have hfull : (255 : UInt8).toNat = (packet.take 255).length := hfront.symm
      rw [lacing_add, cons_append, cut, if_neg hcontinues, ← take_append_drop 255 packet, append_assoc,
        hfull, take_left, drop_left]
      rw [ih m (by omega) _ (packet.drop 255) (by rw [length_drop, hn]; omega)]
      simp

theorem cut_wholes (packets : List Bytes) :
    cut none (packets.flatMap fun packet => lacing packet.length) packets.flatten = (packets, none) := by
  induction packets with
  | nil => rfl
  | cons packet rest ih =>
    rw [flatMap_cons, flatten_cons, cut_lacing, ih]
    rfl

theorem tableSize_wholes (packets : List Bytes) :
    tableSize (packets.flatMap fun packet => lacing packet.length) = packets.flatten.length := by
  induction packets with
  | nil => rfl
  | cons packet rest ih =>
    have hfirst := tableSize_lacing packet.length
    rw [tableSize] at hfirst ih ⊢
    rw [flatMap_cons, map_append, sum_append, hfirst, ih, flatten_cons, length_append]

structure Page.Wholes (page : Page) (packets : List Bytes) : Prop where
  continued : page.continued = false
  table : page.table = packets.flatMap fun packet => lacing packet.length
  data : page.data = packets.flatten

theorem packets_wholes (h : List.Forall₂ Page.Wholes pages wholes) : packets none pages = some wholes.flatten := by
  induction h with
  | nil => rfl
  | cons hpage _ ih =>
    rw [packets, hpage.continued, hpage.table, hpage.data, cut_wholes]
    simp [ih]

/-- A file of pages that hold whole packets, each with a table that can be counted. -/
theorem read_wholes (h : List.Forall₂ Page.Wholes pages wholes) (htable : ∀ page ∈ pages, page.table.length < 256) :
    read (pages.flatMap fun page => page.bytes page.checksum) = some wholes.flatten := by
  have hdata : ∀ page ∈ pages, page.data.length = tableSize page.table := by
    intro page hpage
    obtain ⟨i, hi, rfl⟩ := getElem_of_mem hpage
    have hwholes := (List.forall₂_iff_get.1 h).2 i hi (by rw [← h.length_eq]; exact hi)
    simp only [get_eq_getElem] at hwholes
    rw [hwholes.data, hwholes.table, tableSize_wholes]
  have hrecords : records readPage (pages.flatMap fun page => page.bytes page.checksum) = some (pages.map id) := by
    apply records_flatMap length_lt_of_readPage
    intro page hpage rest
    exact readPage_bytes (htable page hpage) (hdata page hpage) rest
  rw [read, hrecords, map_id, Option.bind_some, packets_wholes h]

end LingVoice.Lib.Ogg
