import TieredWeights.Proofs.Json.Records

/-!
# Configurations survive their text

A configuration written as JSON into a file is read from that file as the same configuration. Its
fields, and those of its split, may stand in any order, and a field that holds its default may be
left out. Numbers are machine words, and the shares of the split are written by texts that read back
as the same shares.
-/
namespace TieredWeights

namespace Files

variable {f : Files} {p : Path}

/-- A file put where no folder stands is in nobody's way. -/
theorem follow_put (hp : f.isFolder p = false) (bytes : ByteArray) {q r : Path}
    {steps : List String} (h : f.follow q steps = .ok r) :
    (f.put p bytes).follow q steps = .ok r := by
  induction steps generalizing q with
  | nil => exact h
  | cons name steps ih =>
    rw [follow] at h ⊢
    split_ifs at h with hfile hfolder hname
    have hq : q ≠ p := by
      rintro rfl
      exact hfolder (by rw [hp]; rfl)
    have hfile' : (f.put p bytes).isFile q = f.isFile q := by
      simp only [isFile, put, Table.contains, Table.find?_insert_ne f.contents _ hq]
    have hfolder' : (f.put p bytes).isFolder q = f.isFolder q := rfl
    rw [hfile', if_neg hfile, hfolder', if_neg hfolder, if_neg hname]
    exact ih h

theorem locate_put (hp : f.isFolder p = false) (bytes : ByteArray) {path : String} {q : Path}
    (h : f.locate path = .ok q) : (f.put p bytes).locate path = .ok q := by
  unfold locate at h ⊢
  cases hroute : Route.ofText path with
  | error e =>
    rw [hroute] at h
    cases h
  | ok r =>
    rw [hroute] at h
    exact follow_put hp bytes h

theorem read_put (f : Files) (p : Path) (bytes : ByteArray) :
    (f.put p bytes).read p = .ok bytes := by
  simp [read, put, Content.bytes]

end Files

namespace Split

/-- A share as it is written. -/
def shareText (x : Binary64) : String := Json.writeNullable id x.exponential

/-- The fields of a split as they are written. -/
def fields (s : Split Binary64) : List (String × String) :=
  [("disk_pct", shareText s.disk), ("host_pct", shareText s.host), ("accel_pct", shareText s.accel),
    ("accelerator", toString s.accelerator)]

/-- Whether a field may be left out: it has a default, which it holds. -/
def Omittable (s : Split Binary64) : String → Prop
  | "accelerator" => s.accelerator = 0
  | _ => False

/-- A text that writes a split. -/
def Written (s : Split Binary64) (text : String) : Prop :=
  Json.WritesObject s.fields s.Omittable text

/-- The shares of a split are written by texts that read back as the same shares. -/
def SharesRead (s : Split Binary64) : Prop :=
  ∀ x ∈ [s.disk, s.host, s.accel], Json.Reads Json.binary64? (shareText x) x

instance (s : Split Binary64) : Decidable s.SharesRead :=
  inferInstanceAs (Decidable (∀ x ∈ [s.disk, s.host, s.accel],
    (Json.read (shareText x).toList).bind Json.binary64? = some x))

theorem written_toJson (s : Split Binary64) : s.Written s.toJson :=
  Json.writesObject_writeObject s.fields s.Omittable

variable {s : Split Binary64} {text : String}

/-- Whatever of a split is written reads as the split. -/
theorem reads_of_written (hshares : s.SharesRead) (hword : s.accelerator ≤ wordMax)
    (h : s.Written text) : Json.Reads ofJson? text s := by
  have hdisk := hshares s.disk (by simp)
  have hhost := hshares s.host (by simp)
  have haccel := hshares s.accel (by simp)
  have hindex := Json.reads_toString hword
  have hread : ∀ f ∈ s.fields, ∃ v, Json.read f.2.toList = some v := by
    simp only [fields, List.forall_mem_cons]
    exact ⟨hdisk.exists_read, hhost.exists_read, haccel.exists_read, hindex.exists_read, nofun⟩
  obtain ⟨values, hrecord, hfound⟩ := Json.record?_of_writesObject fieldNames h
    (by simp [fields, fieldNames]) (by simp [fields]) hread
  obtain ⟨v, hv, hrecord⟩ := Option.bind_eq_some_iff.1 hrecord
  have hdisk' : Json.required Json.binary64? "disk_pct" values = some s.disk :=
    hfound.required (by simp [fields]) (by simp [Omittable]) hdisk
  have hhost' : Json.required Json.binary64? "host_pct" values = some s.host :=
    hfound.required (by simp [fields]) (by simp [Omittable]) hhost
  have haccel' : Json.required Json.binary64? "accel_pct" values = some s.accel :=
    hfound.required (by simp [fields]) (by simp [Omittable]) haccel
  have hindex' : Json.optional Json.word? 0 "accelerator" values = some s.accelerator :=
    hfound.optional (by simp [fields]) id hindex
  rw [Json.Reads, hv, Option.bind_some, ofJson?, hrecord]
  simp only [Option.bind_eq_bind, Option.bind_some, hdisk', hhost', haccel', hindex']

end Split

namespace Config

/-- A capacity as it is written. -/
def capacityText (capacity : Option Nat) : String :=
  Json.writeNullable (fun n : Nat => toString n) capacity

/-- The fields of a configuration as they are written, with a text for its split. -/
def fields (c : Config) (split : String) : List (String × String) :=
  [("num_blocks", toString c.blocks), ("disk_capacity", capacityText c.diskCapacity),
    ("host_capacity", capacityText c.hostCapacity),
    ("accelerator_capacities", Json.writeList (c.acceleratorCapacities.map capacityText)),
    ("spill_dir", Json.writeNullable Json.writeString c.spill), ("default_split", split)]

/-- Whether a field may be left out: it has a default, which it holds. -/
def Omittable (c : Config) : String → Prop
  | "disk_capacity" => c.diskCapacity = none
  | "host_capacity" => c.hostCapacity = none
  | "accelerator_capacities" => c.acceleratorCapacities = [none]
  | "spill_dir" => c.spill = none
  | "default_split" => c.split = .default
  | _ => False

/-- A text that writes a configuration: an object of its fields in any order, in which those that
hold their defaults may be missing, and the same of its split. -/
def Written (c : Config) (text : String) : Prop :=
  ∃ split, c.split.Written split ∧ Json.WritesObject (c.fields split) c.Omittable text

/-- Counts, capacities and indices are machine words. -/
structure Words (c : Config) : Prop where
  blocks : c.blocks ≤ wordMax
  disk : ∀ n ∈ c.diskCapacity, n ≤ wordMax
  host : ∀ n ∈ c.hostCapacity, n ≤ wordMax
  accelerators : ∀ capacity ∈ c.acceleratorCapacities, ∀ n ∈ capacity, n ≤ wordMax
  accelerator : c.split.accelerator ≤ wordMax

theorem written_toJson (c : Config) : c.Written c.toJson :=
  ⟨c.split.toJson, c.split.written_toJson,
    Json.writesObject_writeObject (c.fields c.split.toJson) c.Omittable⟩

theorem reads_capacityText {capacity : Option Nat} (h : ∀ n ∈ capacity, n ≤ wordMax) :
    Json.Reads (Json.nullable Json.word?) (capacityText capacity) capacity :=
  Json.reads_writeNullable rfl fun n hn => Json.reads_toString (h n hn)

variable {c : Config} {text : String}

/-- Whatever of a configuration is written reads as the configuration. -/
theorem reads_of_written (hwords : c.Words) (hshares : c.split.SharesRead) (h : c.Written text) :
    Json.Reads ofJson? text c := by
  obtain ⟨split, hsplit, h⟩ := h
  have hblocks := Json.reads_toString hwords.blocks
  have hdisk := reads_capacityText hwords.disk
  have hhost := reads_capacityText hwords.host
  have haccelerators := Json.reads_writeList fun capacity hcapacity =>
    reads_capacityText (hwords.accelerators capacity hcapacity)
  have hspill : Json.Reads (Json.nullable Json.text?)
      (Json.writeNullable Json.writeString c.spill) c.spill :=
    Json.reads_writeNullable rfl fun s _ => Json.reads_writeString s
  have hsplit := Split.reads_of_written hshares hwords.accelerator hsplit
  have hread : ∀ f ∈ c.fields split, ∃ v, Json.read f.2.toList = some v := by
    simp only [fields, List.forall_mem_cons]
    exact ⟨hblocks.exists_read, hdisk.exists_read, hhost.exists_read, haccelerators.exists_read,
      hspill.exists_read, hsplit.exists_read, nofun⟩
  obtain ⟨values, hrecord, hfound⟩ := Json.record?_of_writesObject fieldNames h
    (by simp [fields, fieldNames]) (by simp [fields]) hread
  obtain ⟨v, hv, hrecord⟩ := Option.bind_eq_some_iff.1 hrecord
  have hblocks' : Json.required Json.word? "num_blocks" values = some c.blocks :=
    hfound.required (by simp [fields]) (by simp [Omittable]) hblocks
  have hdisk' : Json.optional (Json.nullable Json.word?) none "disk_capacity" values =
      some c.diskCapacity := hfound.optional (by simp [fields]) id hdisk
  have hhost' : Json.optional (Json.nullable Json.word?) none "host_capacity" values =
      some c.hostCapacity := hfound.optional (by simp [fields]) id hhost
  have haccelerators' : Json.optional (Json.list? (Json.nullable Json.word?)) [none]
      "accelerator_capacities" values = some c.acceleratorCapacities :=
    hfound.optional (by simp [fields]) id haccelerators
  have hspill' : Json.optional (Json.nullable Json.text?) none "spill_dir" values =
      some c.spill := hfound.optional (by simp [fields]) id hspill
  have hsplit' : Json.optional Split.ofJson? .default "default_split" values = some c.split :=
    hfound.optional (by simp [fields]) id hsplit
  rw [Json.Reads, hv, Option.bind_some, ofJson?, hrecord]
  simp only [Option.bind_eq_bind, Option.bind_some, hblocks', hdisk', hhost', haccelerators',
    hspill', hsplit']

/-- A usable configuration is read from a file that it was written into. -/
theorem ofFile_put_of_reads {f : Files} {path : String} {p : Path} (hvalid : c.validate = .ok ())
    (hpath : f.locate path = .ok p) (hp : f.isFolder p = false) (h : Json.Reads ofJson? text c) :
    ofFile (f.put p text.toUTF8) path = .ok c := by
  have hbytes : (f.put p text.toUTF8).locate path >>= (f.put p text.toUTF8).read =
      .ok text.toUTF8 := by
    rw [Files.locate_put hp _ hpath]
    exact Files.read_put f p _
  have htext : String.fromUTF8? text.toUTF8 = some text := dif_pos text.isValidUTF8
  rw [ofFile, hbytes]
  simp only [Except.mapError, bind, Except.bind, htext, read]
  rw [show (Json.read text.toList).bind ofJson? = some c from h]
  simp only [hvalid, Except.map]

/-- A configuration survives its text: written into a file, all of it or what its defaults do not
say, in any order of its fields, it is read from there as the same configuration. -/
theorem ofFile_put_written {f : Files} {path : String} {p : Path} (hvalid : c.validate = .ok ())
    (hwords : c.Words) (hshares : c.split.SharesRead) (hpath : f.locate path = .ok p)
    (hp : f.isFolder p = false) :
    ofFile (f.put p c.toJson.toUTF8) path = .ok c ∧
      ∀ text, c.Written text → ofFile (f.put p text.toUTF8) path = .ok c :=
  have hwritten : ∀ text, c.Written text → ofFile (f.put p text.toUTF8) path = .ok c :=
    fun _ htext => ofFile_put_of_reads hvalid hpath hp (reads_of_written hwords hshares htext)
  ⟨hwritten _ c.written_toJson, hwritten⟩

/-- A configuration whose folder has marks, controls and letters beyond ASCII in its name. -/
def twoAccelerators : Config :=
  { blocks := 4, hostCapacity := some 1024, acceleratorCapacities := [some 512, none],
    spill := some "a \"folder\"\\\n\x01é😀", split := ⟨0, 50, 50, 1⟩ }

/-- The fields of its split in an order of their own. -/
def twoAcceleratorsSplit : List (String × String) :=
  [("accelerator", "1"), ("accel_pct", "50.0"), ("disk_pct", "0.0"), ("host_pct", "50.0")]

/-- Its own fields without the capacity of the disk. -/
def twoAcceleratorsFields : List (String × String) :=
  [("default_split", Json.writeObject twoAcceleratorsSplit),
    ("spill_dir", Json.writeString "a \"folder\"\\\n\x01é😀"),
    ("accelerator_capacities", "[512,null]"), ("num_blocks", "4"), ("host_capacity", "1024")]

theorem written_twoAcceleratorsFields :
    twoAccelerators.Written (Json.writeObject twoAcceleratorsFields) :=
  have hsplit : twoAccelerators.split.Written (Json.writeObject twoAcceleratorsSplit) :=
    ⟨[], twoAcceleratorsSplit, nofun, by decide +kernel, rfl⟩
  ⟨_, hsplit, ["disk_capacity"], twoAcceleratorsFields,
    List.forall_mem_singleton.2 rfl, by decide +kernel, rfl⟩

theorem ofFile_put_twoAccelerators :
    ofFile (Files.empty.put ["config.json"] twoAccelerators.toJson.toUTF8) "config.json" =
        .ok twoAccelerators ∧
      ofFile (Files.empty.put ["config.json"] (Json.writeObject twoAcceleratorsFields).toUTF8)
        "config.json" = .ok twoAccelerators := by
  have hwords : twoAccelerators.Words :=
    ⟨by decide, by decide, by decide, by decide, by decide⟩
  have hpath : Files.empty.locate "config.json" = .ok ["config.json"] := rfl
  have hread := ofFile_put_written (c := twoAccelerators) (by decide +kernel) hwords
    (by decide +kernel) hpath (by decide)
  exact ⟨hread.1, hread.2 _ written_twoAcceleratorsFields⟩

end Config

end TieredWeights
