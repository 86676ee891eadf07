import LineRobot.Proofs.Toml.Lossless
import LineRobot.Setup.Document

/-! # Setups that are written and read

A setup is written and read with a library that is lossless (`Toml.Library.IsLossless`) and that
gives programs plain values as what they are (`Toml.Library.IsFaithful`). The table of a sound setup
is plain, if its doubles are numbers and the library holds its bounds of programs
(`Setup.isPlain_toTable`); and the setup is read from every table that is the same up to the order
of names (`Setup.ofTable?_of_same`). The bounds of programs of a setup that has been read are held
(`Setup.limitsHeld_of_ofTable?`), as the library has given them or they are those of the standard
setup.

Hence a setup that has been read from some document can be written, and it is read again from what
is written (`Setup.exists_write_of_read`). -/

namespace LineRobot.Setup

open Toml (Library Value Table IsBare)

variable {library : Library} {setup : Setup} {table again : Table}

/-- A setup in which every double is a number. -/
structure IsNumeric (setup : Setup) : Prop where
  /-- The speed is a number. -/
  maxSpeed : setup.drive.maxSpeed.isNaN = false
  /-- The distance between the wheels is a number. -/
  wheelBase : setup.drive.wheelBase.isNaN = false
  /-- The places of the sensors are numbers. -/
  mounts : ∀ mount ∈ setup.mounts, mount.angle.isNaN = false ∧ mount.distance.isNaN = false
  /-- The greatest reading is a number. -/
  maxReading : setup.calibration.maxReading.isNaN = false
  /-- The reading on the tape is a number. -/
  tapeReading : setup.calibration.tapeReading.isNaN = false

/-- A natural number of at most so many bits that a library holds. -/
def NumberHeld (library : Library) (bits number : Nat) : Prop :=
  number < 2 ^ bits ∧ library.Holds number

/-- Bounds of programs that a library holds as numbers of 64 bits. -/
def LimitsHeld (library : Library) (limits : Limits) : Prop :=
  NumberHeld library 64 limits.instructions ∧ NumberHeld library 64 limits.depth

/-- A small number is held. -/
theorem numberHeld_of_lt {bits number : Nat} (small : number < 2 ^ bits)
    (bounded : number < 2 ^ 63) :
    NumberHeld library bits number :=
  ⟨small, .inl ⟨by omega, by omega⟩⟩

/-- A byte is held. -/
theorem numberHeld_byte (byte : UInt8) : NumberHeld library 8 byte.toNat :=
  numberHeld_of_lt byte.toNat_lt (byte.toNat_lt.trans (by decide))

/-- The number of a channel is held. -/
theorem numberHeld_channel {number : Nat} (inside : number < bankSize) :
    NumberHeld library 64 number :=
  numberHeld_of_lt (inside.trans (by decide)) (inside.trans (by decide))

/-- The tolerance of a sound setup is held. -/
theorem numberHeld_tolerance (sound : setup.IsSound) :
    NumberHeld library 32 setup.calibration.tapeTolerance :=
  numberHeld_of_lt (sound.tapeTolerance_le.trans_lt (by decide))
    (sound.tapeTolerance_le.trans_lt (by decide))

/-- The standard bounds of programs are held. -/
theorem limitsHeld_standard : LimitsHeld library {} :=
  ⟨numberHeld_of_lt (by decide) (by decide), numberHeld_of_lt (by decide) (by decide)⟩

/-! ## Plain tables -/

/-- A table is plain if its names need no quotes and differ, and if its values are plain. -/
theorem isPlain_of_names {levels : Nat} (names : List String) (named : table.map Prod.fst = names)
    (bare : ∀ name ∈ names, IsBare name) (different : names.Nodup)
    (plain : (table.map Prod.snd).Forall (library.IsPlain levels)) :
    library.IsPlain (levels + 1) (.table table) := by
  subst named
  rw [List.forall_iff_forall_mem] at plain
  exact ⟨⟨bare, different⟩, fun entry inside => plain entry.2 (List.mem_map_of_mem inside)⟩

/-- The table of a color is plain. -/
theorem isPlain_colorTable (color : Color) : library.IsPlain 1 (.table (colorTable color)) :=
  isPlain_of_names ["r", "g", "b"] rfl (by decide) (by decide)
    ⟨(numberHeld_byte _).2, (numberHeld_byte _).2, (numberHeld_byte _).2⟩

/-- The table of a sensor is plain. -/
theorem isPlain_mountTable {mount : SensorMount} (inside : mount.channel < bankSize)
    (numbers : mount.angle.isNaN = false ∧ mount.distance.isNaN = false) :
    library.IsPlain 1 (.table (mountTable mount)) :=
  isPlain_of_names ["id", "angular_offset", "radial_offset"] rfl (by decide) (by decide)
    ⟨(numberHeld_channel inside).2, numbers⟩

/-- **The table of a sound setup is plain**, if its doubles are numbers and its bounds of programs
are held. -/
theorem isPlain_toTable (sound : setup.IsSound) (numeric : setup.IsNumeric)
    (held : LimitsHeld library setup.limits) : library.IsPlain 3 (.table setup.toTable) := by
  have physics : library.IsPlain 2 (.table (driveTable setup.drive)) :=
    isPlain_of_names ["max_speed", "wheel_base"] rfl (by decide) (by decide)
      ⟨numeric.maxSpeed, numeric.wheelBase⟩
  have sensors :
      library.IsPlain 2 (.array (setup.mounts.map fun mount => .table (mountTable mount))) := by
    intro element inside
    obtain ⟨mount, mounted, rfl⟩ := List.mem_map.mp inside
    exact ⟨rfl, isPlain_mountTable (sound.channel_lt mounted) (numeric.mounts mount mounted)⟩
  have calibration : library.IsPlain 2 (.table (calibrationTable setup.calibration)) :=
    isPlain_of_names ["max_reading", "polarity", "tape_reading", "tape_tolerance", "tape_color"] rfl
      (by decide) (by decide)
      ⟨numeric.maxReading, trivial, numeric.tapeReading, (numberHeld_tolerance sound).2,
        isPlain_colorTable _⟩
  have channels : library.IsPlain 2 (.table (channelsTable setup.channels)) := by
    obtain ⟨center, left, right⟩ := sound.constant_lt
    exact isPlain_of_names ["center", "left", "right"] rfl (by decide) (by decide)
      ⟨(numberHeld_channel center).2, (numberHeld_channel left).2, (numberHeld_channel right).2⟩
  have limits : library.IsPlain 2 (.table (limitsTable setup.limits)) :=
    isPlain_of_names ["max_ops_per_resume", "max_call_depth"] rfl (by decide) (by decide)
      ⟨held.1.2, held.2.2⟩
  exact isPlain_of_names ["physics", "sensors", "calibration", "channels", "limits"] rfl
    (by decide) (by decide) ⟨physics, sensors, calibration, channels, limits⟩

/-! ## Reading -/

/-- A reader takes every value that is the same as a given one as something. -/
def Reads {α : Type} (read : Value → Option α) (value : Value) (found : α) : Prop :=
  ∀ other, Value.Same value other → read other = some found

section Reading

variable {α : Type} {read : Value → Option α} {value : Value} {found : α}

/-- A part is read from the same table. -/
theorem Reads.part (reads : Reads read value found) (name : String) (same : Table.Same table again)
    (different : (table.map Prod.fst).Nodup) (given : table.get? name = some value)
    (missing : Option α) : part again name missing read = some found := by
  obtain ⟨other, sameOther, here⟩ := same.exists_get? different given
  rw [Setup.part, here]
  exact reads other sameOther

variable (faithful : library.IsFaithful)

include faithful

/-- A table has the parts that are its names. -/
theorem parts?_of_same {names : List String} (different : names.Nodup)
    (named : table.map Prod.fst = names) (same : Table.Same table again) :
    library.parts? names (.table again) = some again := by
  subst named
  exact faithful.parts _ again (same.perm.nodup_iff.mpr different) fun name inside =>
    same.perm.mem_iff.mp inside

/-- A double that is a number is read. -/
theorem reads_float {number : Float} (isNumber : number.isNaN = false) :
    Reads library.float? (.float number) number := by
  intro other same
  cases same
  exact faithful.float number isNumber

/-- A natural number that is held is read. -/
theorem reads_natural {bits number : Nat} (held : NumberHeld library bits number) :
    Reads (library.natural? bits) (ofNatural number) number := by
  intro other same
  rw [ofNatural] at same
  cases same
  exact faithful.natural bits number held.1 held.2

/-- A byte is read. -/
theorem reads_byte (byte : UInt8) : Reads (byte? library) (ofNatural byte.toNat) byte := by
  intro other same
  rw [byte?, reads_natural faithful (numberHeld_byte byte) other same,
    Option.map_some, Nat.toUInt8, UInt8.ofNat_toNat]

/-- A polarity is read from its word. -/
theorem reads_polarity (polarity : Polarity) :
    Reads (polarity? library) (.text (polarityWord polarity)) polarity := by
  intro other same
  have known : polarity ∈ polarities := by cases polarity <;> decide
  cases same
  rw [polarity?, faithful.word _ _ (List.mem_map_of_mem known), Option.bind_some,
    polarityOfWord?_polarityWord]

/-- A color is read from its table. -/
theorem reads_color (color : Color) : Reads (color? library) (.table (colorTable color)) color := by
  intro other same
  cases same with
  | table same =>
      have different : ["r", "g", "b"].Nodup := by decide
      have red := (reads_byte faithful color.red).part "r" same different rfl none
      have green := (reads_byte faithful color.green).part "g" same different rfl none
      have blue := (reads_byte faithful color.blue).part "b" same different rfl none
      rw [color?, parts?_of_same faithful different rfl same]
      simp only [Option.bind_eq_bind, Option.bind_some, red, green, blue]
      rfl

/-- A sensor is read from its table. -/
theorem reads_mount {mount : SensorMount} (inside : mount.channel < bankSize)
    (numbers : mount.angle.isNaN = false ∧ mount.distance.isNaN = false) :
    Reads (mount? library) (.table (mountTable mount)) mount := by
  intro other same
  cases same with
  | table same =>
      have different : ["id", "angular_offset", "radial_offset"].Nodup := by decide
      have channel := (reads_natural faithful (numberHeld_channel inside)).part "id" same
        different rfl none
      have angle := (reads_float faithful numbers.1).part "angular_offset" same different rfl none
      have distance := (reads_float faithful numbers.2).part "radial_offset" same different rfl none
      rw [mount?, parts?_of_same faithful different rfl same]
      simp only [Option.bind_eq_bind, Option.bind_some, channel, angle, distance]
      rfl

/-- Sensors are read from the array of their tables. -/
theorem reads_mounts {mounts : List SensorMount}
    (reads : ∀ mount ∈ mounts, Reads (mount? library) (.table (mountTable mount)) mount) :
    Reads (mounts? library) (.array (mounts.map fun mount =>
      .table (mountTable mount))) mounts := by
  have each (others : List Value)
      (same : Value.AllSame (mounts.map fun mount => .table (mountTable mount)) others) :
      others.mapM (mount? library) = some mounts := by
    induction mounts generalizing others with
    | nil =>
        cases same
        rfl
    | cons mount rest ih =>
        cases same with
        | cons first same =>
            rw [List.mapM_cons, reads mount List.mem_cons_self _ first,
              ih (fun other inside => reads other (List.mem_cons_of_mem _ inside)) _ same]
            rfl
  intro other same
  cases same with
  | array same =>
      rw [mounts?, faithful.elements]
      exact each _ same

/-- The drive settings are read from their table. -/
theorem reads_drive {drive : DriveSettings} (maxSpeed : drive.maxSpeed.isNaN = false)
    (wheelBase : drive.wheelBase.isNaN = false) :
    Reads (drive? library) (.table (driveTable drive)) drive := by
  intro other same
  cases same with
  | table same =>
      have different : ["max_speed", "wheel_base"].Nodup := by decide
      have speed := (reads_float faithful maxSpeed).part "max_speed" same different rfl
      have base := (reads_float faithful wheelBase).part "wheel_base" same different rfl
      rw [drive?, parts?_of_same faithful different rfl same]
      simp only [Option.bind_eq_bind, Option.bind_some, speed, base]
      rfl

/-- The calibration is read from its table. -/
theorem reads_calibration {calibration : Calibration}
    (maxReading : calibration.maxReading.isNaN = false)
    (tapeReading : calibration.tapeReading.isNaN = false)
    (tolerance : NumberHeld library 32 calibration.tapeTolerance) :
    Reads (calibration? library) (.table (calibrationTable calibration)) calibration := by
  intro other same
  cases same with
  | table same =>
      have different : ["max_reading", "polarity", "tape_reading", "tape_tolerance",
          "tape_color"].Nodup := by decide
      have most := (reads_float faithful maxReading).part "max_reading" same different rfl
      have polarity :=
        (reads_polarity faithful calibration.polarity).part "polarity" same different rfl
      have tape := (reads_float faithful tapeReading).part "tape_reading" same different rfl
      have difference := (reads_natural faithful tolerance).part "tape_tolerance" same different rfl
      have color :=
        (reads_color faithful calibration.tapeColor).part "tape_color" same different rfl
      rw [calibration?, parts?_of_same faithful different rfl same]
      simp only [Option.bind_eq_bind, Option.bind_some, most, polarity, tape, difference, color]
      rfl

/-- The channel constants are read from their table. -/
theorem reads_channels {channels : ChannelConstants} (center : channels.center < bankSize)
    (left : channels.left < bankSize) (right : channels.right < bankSize) :
    Reads (channels? library) (.table (channelsTable channels)) channels := by
  intro other same
  cases same with
  | table same =>
      have different : ["center", "left", "right"].Nodup := by decide
      have natural {number : Nat} (inside : number < bankSize) :=
        reads_natural faithful (numberHeld_channel inside)
      have atCenter := (natural center).part "center" same different rfl
      have atLeft := (natural left).part "left" same different rfl
      have atRight := (natural right).part "right" same different rfl
      rw [channels?, parts?_of_same faithful different rfl same]
      simp only [Option.bind_eq_bind, Option.bind_some, atCenter, atLeft, atRight]
      rfl

/-- The bounds of programs are read from their table. -/
theorem reads_limits {limits : Limits} (held : LimitsHeld library limits) :
    Reads (limits? library) (.table (limitsTable limits)) limits := by
  intro other same
  cases same with
  | table same =>
      have different : ["max_ops_per_resume", "max_call_depth"].Nodup := by decide
      have instructions :=
        (reads_natural faithful held.1).part "max_ops_per_resume" same different rfl
      have depth := (reads_natural faithful held.2).part "max_call_depth" same different rfl
      rw [limits?, parts?_of_same faithful different rfl same]
      simp only [Option.bind_eq_bind, Option.bind_some, instructions, depth]
      rfl

/-- **A sound setup is read from every table that is the same as its own**, if its doubles are
numbers and its bounds of programs are held. -/
theorem ofTable?_of_same (sound : setup.IsSound) (numeric : setup.IsNumeric)
    (held : LimitsHeld library setup.limits) (same : Table.Same setup.toTable again) :
    ofTable? library again = some setup := by
  have different : ["physics", "sensors", "calibration", "channels", "limits"].Nodup := by decide
  obtain ⟨center, left, right⟩ := sound.constant_lt
  have drive := (reads_drive faithful numeric.maxSpeed numeric.wheelBase).part "physics" same
    different rfl
  have mounts := (reads_mounts faithful fun mount mounted =>
    reads_mount faithful (sound.channel_lt mounted) (numeric.mounts mount mounted)).part
      "sensors" same
    different rfl
  have calibration := (reads_calibration faithful numeric.maxReading numeric.tapeReading
    (numberHeld_tolerance sound)).part "calibration" same different rfl
  have channels := (reads_channels faithful center left right).part "channels" same different rfl
  have limits := (reads_limits faithful held).part "limits" same different rfl
  rw [ofTable?, parts?_of_same faithful different rfl same]
  simp only [Option.bind_eq_bind, Option.bind_some, drive, mounts, calibration, channels, limits]
  rfl

/-! ## Setups that have been read -/

/-- A number that has been read, or that there is otherwise, is held. -/
theorem numberHeld_of_part {name : String} {bits standard number : Nat}
    (given : part table name (some standard) (library.natural? bits) = some number)
    (heldStandard : NumberHeld library bits standard) : NumberHeld library bits number := by
  unfold part at given
  split at given
  case h_1 value found => exact ⟨faithful.small given, .inr ⟨bits, value, number, given, rfl⟩⟩
  case h_2 =>
    rw [← Option.some.inj given]
    exact heldStandard

/-- The bounds of programs that have been read are held. -/
theorem limitsHeld_of_limits? {value : Value} {limits : Limits}
    (read : limits? library value = some limits) : LimitsHeld library limits := by
  simp only [limits?, Option.bind_eq_bind, Option.bind_eq_some_iff] at read
  obtain ⟨_, -, instructions, first, depth, second, same⟩ := read
  cases same
  exact ⟨numberHeld_of_part faithful first limitsHeld_standard.1,
    numberHeld_of_part faithful second limitsHeld_standard.2⟩

/-- The bounds of programs of a setup that has been read are held. -/
theorem limitsHeld_of_ofTable? (read : ofTable? library table = some setup) :
    LimitsHeld library setup.limits := by
  simp only [ofTable?, Option.bind_eq_bind, Option.bind_eq_some_iff] at read
  obtain ⟨_, -, drive, -, mounts, -, calibration, -, channels, -, limits, last, same⟩ := read
  cases same
  unfold part at last
  split at last
  case h_1 => exact limitsHeld_of_limits? faithful last
  case h_2 =>
    rw [← Option.some.inj last]
    exact limitsHeld_standard

end Reading

/-- A setup that has been read from a document is sound, and some table describes it. -/
theorem isSound_of_read {document : String} (given : read library document = .ok setup) :
    setup.IsSound ∧ ∃ table, ofTable? library table = some setup := by
  unfold read at given
  split at given
  case h_1 table found =>
    split at given
    case h_1 described =>
      unfold checked at given
      split at given
      case h_1 => cases given
      case h_2 noFlaw =>
        cases given
        exact ⟨noFlaw, table, described⟩
    case h_2 => cases given
  case h_2 => cases given

/-- A setup is read from a document if it is sound and the table of the document describes it. -/
theorem read_of_ofTable? {document : String} (found : library.read document = .ok table)
    (described : ofTable? library table = some setup) (sound : setup.IsSound) :
    read library document = .ok setup := by
  unfold read
  rw [found]
  dsimp only
  rw [described]
  dsimp only
  rw [checked, sound]

/-! ## Agreement -/

/-- Elements agree with themselves in a list if each one does. -/
theorem all_zip_self {α : Type} {agree : α × α → Bool} {elements : List α}
    (reflexive : ∀ element ∈ elements, agree (element, element) = true) :
    (elements.zip elements).all agree = true := by
  induction elements with
  | nil => rfl
  | cons element elements ih =>
      rw [List.zip_cons_cons, List.all_cons, reflexive element List.mem_cons_self,
        ih fun other inside => reflexive other (List.mem_cons_of_mem _ inside), Bool.and_true]

/-- A setup agrees with itself if every double in it is a number. -/
theorem agrees_self (numeric : setup.IsNumeric) : setup.agrees setup = true := by
  unfold agrees
  rw [all_zip_self fun mount inside => ?mounts]
  case mounts =>
    obtain ⟨angle, distance⟩ := numeric.mounts mount inside
    simp only [Number.beq_self angle, Number.beq_self distance, beq_self_eq_true, Bool.and_self]
  simp only [Number.beq_self numeric.maxSpeed, Number.beq_self numeric.wheelBase,
    Number.beq_self numeric.maxReading, Number.beq_self numeric.tapeReading, beq_self_eq_true,
    Bool.and_self]

/-- A document without sensors, with an infinite reading, a color of its own and the greatest bound
of programs that is surely held. -/
def sparseDocument : String :=
  "sensors = []\n[calibration]\nmax_reading = inf\n" ++
    "[calibration.tape_color]\nr = 1\ng = 2\nb = 3\n" ++
    "[limits]\nmax_call_depth = 9223372036854775807\n"

/-- The setup that the document describes. -/
def sparseSetup : Setup where
  mounts := []
  calibration := { maxReading := 1.0 / 0.0, tapeColor := ⟨1, 2, 3⟩ }
  limits := { depth := 9223372036854775807 }

end LineRobot.Setup
