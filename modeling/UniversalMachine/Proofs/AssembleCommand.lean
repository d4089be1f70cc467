import UniversalMachine.Proofs.Files
import UniversalMachine.Proofs.ImageCodec
import UniversalMachine.Proofs.Performing
import Mathlib.Data.Option.Basic

/-! Assembling a source into an image.
The command opens the image once, when everything before has succeeded, so a failure up to there
leaves the files as they were. From then on the image holds what has been written of it. A whole
image is read back as the program that the source stands for. -/

namespace UniversalMachine

namespace Text

/-- Decoding accepts exactly what encoding gives. -/
theorem ofUtf8?_eq_some_iff {bytes : Bytes} {text : String} :
    ofUtf8? bytes = some text ↔ bytes = toUtf8 text := by
  rw [ofUtf8?, String.fromUTF8?]
  constructor
  · intro h
    split at h
    · cases h
      exact bytes.toList_toArray.symm
    · cases h
  · rintro rfl
    rw [toUtf8, Array.toArray_toList]
    exact dif_pos text.isValidUTF8

theorem toUtf8_inj {s t : String} (h : toUtf8 s = toUtf8 t) : s = t := by
  have hs : ofUtf8? (toUtf8 s) = some s := ofUtf8?_eq_some_iff.mpr rfl
  rw [h, ofUtf8?_eq_some_iff.mpr rfl] at hs
  exact (Option.some.inj hs).symm

end Text

namespace CommandLine

section Arguments

variable {table : OptionTable} {text : String}

/-- What does not begin like an option is a positional argument. -/
theorem scan_positional (h : OptionTable.isOption text = false) (rest : List String) :
    table.scan (text :: rest) = (table.scan rest).map (.positional text :: ·) := by
  rw [OptionTable.scan]
  split
  · simp [OptionTable.isOption, *] at h
  · simp [OptionTable.isOption, *] at h
  · simp [OptionTable.isOption, *] at h
  · cases table.scan rest with
    | none => rfl
    | some behind => rfl

theorem scan_output {image : String} (h : OptionTable.isOption image = false) :
    Command.assembleTable.scan ["-o", image] = some [.valued "output" image] := by
  have hletters : "-o".toList = ['-', 'o'] := rfl
  have hvalue : guard ((!OptionTable.isOption image) = true) = some () :=
    (Option.guard_eq_some' ()).mpr (congrArg not h)
  rw [OptionTable.scan, hletters]
  dsimp only
  rw [hvalue, OptionTable.scan]
  rfl

theorem parse_asm {rest : List String} {arguments : List Argument} {command : Command}
    (hscan : Command.assembleTable.scan rest = some arguments)
    (hread : Command.ofAssembleArguments arguments = some command)
    (hquiet : Argument.count Command.verbose arguments = 0)
    (hhelp : arguments.contains (.flag helpName) = false) :
    Request.parse ("asm" :: rest) = some (.invoke ⟨0, command⟩) := by
  rw [Request.parse, Request.parseFrom, if_neg (by decide), if_pos (by decide), invocation, hscan]
  simp only [Option.bind_eq_bind, Option.bind_some, hhelp]
  simp [hread, hquiet]

/-- The command line that names a source and an image. -/
theorem parse_assemble {source image : String} (hs : source ≠ "")
    (hs' : OptionTable.isOption source = false) (hi : image ≠ "")
    (hi' : OptionTable.isOption image = false) :
    Request.parse ["asm", source, "-o", image] =
      some (.invoke ⟨0, .assemble source (some image)⟩) := by
  have hscan : Command.assembleTable.scan [source, "-o", image] =
      some [.positional source, .valued "output" image] := by
    rw [scan_positional hs', scan_output hi']
    rfl
  have hread : Command.ofAssembleArguments [.positional source, .valued "output" image] =
      some (.assemble source (some image)) := by
    simp [Command.ofAssembleArguments, Argument.positionals, Argument.value?, fileName?, optional,
      hs, hi]
  exact parse_asm hscan hread (by simp [Argument.count]) (by simp)

end Arguments

section Building

variable {fuel : Nat} {world : World} {policy : LogPolicy} {source image : String}
  {output : Option String} {p q : Program} {files after : FileSystem}

/-- The source holds a text that stands for this program. -/
def FileSystem.Assembles (files : FileSystem) (source : String) (p : Program) : Prop :=
  ∃ text, files.Holds source (Text.toUtf8 text) ∧ Assembly.assemble text = .ok p

theorem FileSystem.Assembles.unique (hp : files.Assembles source p)
    (hq : files.Assembles source q) : p = q := by
  obtain ⟨s, hs, hp⟩ := hp
  obtain ⟨t, ht, hq⟩ := hq
  rw [← FileSystem.read_eq_ok_iff] at hs ht
  rw [hs] at ht
  obtain rfl := Text.toUtf8_inj (Except.ok.inj ht)
  rw [hp] at hq
  exact Except.ok.inj hq

/-- A source that stands for a program leaves only the writing of the image to be done. -/
theorem assemble_writes {r : Report} (hsource : world.files.Assembles source p)
    (himage : output.getD (imageName source) = image)
    (h : Action.Leaves fuel world (.writeFile image p.toBytes fun
      | .error failure => .fail (.writingImage image failure)
      | .ok () => .notify policy (.assembled p.length image) (.exit 0)) r) :
    Action.Leaves fuel world (assemble policy source output) r := by
  obtain ⟨text, hholds, hassembled⟩ := hsource
  apply Action.Leaves.readFile (FileSystem.read_eq_ok_iff.mpr hholds)
  dsimp only [Except.mapError]
  rw [Text.ofUtf8?_eq_some_iff.mpr rfl]
  dsimp only
  rw [hassembled, himage]
  exact h

/-- A source that does not stand for a program ends the command before the image is opened. -/
theorem assemble_unread (fuel : Nat) (policy : LogPolicy) (output : Option String)
    (h : ∀ p, ¬ world.files.Assembles source p) :
    ∃ f, Action.Leaves fuel world (assemble policy source output)
      ⟨1, [], [.line ("um: " ++ Failed.text f)], world.files⟩ := by
  have hfail := Action.leaves_fail fuel world
  cases hread : world.files.read source with
  | error e => exact ⟨_, .readFile hread (hfail _)⟩
  | ok bytes =>
    cases htext : Text.ofUtf8? bytes with
    | none =>
      refine ⟨.decodingSource source, .readFile hread ?_⟩
      dsimp only [Except.mapError]
      rw [htext]
      exact hfail _
    | some text =>
      cases hassembled : Assembly.assemble text with
      | error e =>
        refine ⟨.assembling source e, .readFile hread ?_⟩
        dsimp only [Except.mapError]
        rw [htext]
        dsimp only
        rw [hassembled]
        exact hfail _
      | ok p =>
        obtain rfl := Text.ofUtf8?_eq_some_iff.mp htext
        exact absurd ⟨text, FileSystem.read_eq_ok_iff.mp hread, hassembled⟩ (h p)

/-- What the command leaves of a source that stands for a program is what the write leaves. -/
theorem assemble_leaves (fuel : Nat) (policy : LogPolicy)
    (hsource : world.files.Assembles source p) (himage : output.getD (imageName source) = image) :
    ∃ result after diagnostics, world.Wrote image p.toBytes result after ∧
      Action.Leaves fuel world (assemble policy source output)
        ⟨if result = .ok () then 0 else 1, [], diagnostics, after⟩ := by
  obtain ⟨result, after, hwrite, hwrote⟩ := world.exists_wrote image p.toBytes
  cases result with
  | ok written =>
    refine ⟨.ok (), after, [], hwrote, assemble_writes hsource himage (.writeFile hwrite ?_)⟩
    exact (Action.leaves_exit fuel { world with files := after } 0).notify policy _
  | error failure =>
    have hfail :=
      Action.leaves_fail fuel { world with files := after } (.writingImage image failure)
    exact ⟨.error failure, after, _, hwrote,
      assemble_writes hsource himage (.writeFile hwrite hfail)⟩

theorem disassemble_perform (fuel : Nat) (hread : world.files.read image = .ok p.toBytes) :
    (disassemble image).perform fuel world =
      some ⟨0, Text.toUtf8 (Listing.ofProgram p), [], world.files⟩ := by
  rw [disassemble, loadImage, Action.perform, hread]
  dsimp only
  rw [Program.ofBytes_toBytes]
  simp [Action.perform, Report.printing]

/-- The image has been made of `p`, and nothing else has changed. -/
structure Built (before after : FileSystem) (image : String) (p : Program) : Prop where
  replaced : before.Replaced after image p.toBytes
  loads : ∃ bytes, after.read image = .ok bytes ∧ Program.ofBytes bytes = .ok p
  listed : ∀ (verbosity : Nat) (explicit : Option LogFilter) (world : World) (fuel : Nat),
    world.files = after →
    ((Request.invoke ⟨verbosity, .disassemble image⟩).action explicit).perform fuel world =
      some ⟨0, Text.toUtf8 (Listing.ofProgram p), [], after⟩

theorem built_of_replaced (h : files.Replaced after image p.toBytes) :
    Built files after image p := by
  have hread := FileSystem.read_eq_ok_iff.mpr h.holds
  refine ⟨h, ⟨_, hread, Program.ofBytes_toBytes p⟩, ?_⟩
  rintro verbosity explicit world fuel rfl
  exact disassemble_perform fuel hread

/-- The command that assembles a source into an image succeeds exactly when the source stands for a
program and the image can be opened and takes all of it. Then the image holds that program and all
other files are as before. Otherwise all files are, unless the writing of the image broke off, which
leaves a part of the program in it. The command never prints. -/
theorem assemble_builds_or_breaks (world : World) (source image : String) (verbosity : Nat)
    (explicit : Option LogFilter) :
    let command := (Request.invoke ⟨verbosity, .assemble source (some image)⟩).action explicit
    (source ≠ "" → OptionTable.isOption source = false → image ≠ "" →
      OptionTable.isOption image = false →
      Request.parse ["asm", source, "-o", image] =
        some (.invoke ⟨0, .assemble source (some image)⟩)) ∧
    ∃ report, (∀ fuel, command.perform fuel world = some report) ∧ report.output = [] ∧
      (report.status = 0 ↔
        ∃ p, world.files.Assembles source p ∧ world.CanWrite image p.toBytes) ∧
      (∀ p, world.files.Assembles source p → world.CanWrite image p.toBytes →
        Built world.files report.files image p) ∧
      (report.status ≠ 0 → report.status = 1) ∧
      ((∀ p, ¬ world.files.Assembles source p) ∨ ¬ world.files.CanOpen image →
        report.files = world.files) ∧
      (∀ p, world.files.Assembles source p → world.files.CanOpen image → ¬ world.Takes p.toBytes →
        ∃ n < p.toBytes.length, world.files.Replaced report.files image (p.toBytes.take n)) := by
  intro command
  refine ⟨parse_assemble, ?_⟩
  by_cases hgood : ∃ p, world.files.Assembles source p
  · obtain ⟨p, hsource⟩ := hgood
    obtain ⟨result, after, diagnostics, hwrote, hleaves⟩ := assemble_leaves 0
      (LogPolicy.choose verbosity false explicit) hsource (Option.getD_some (a := image))
    obtain ⟨front, hreport⟩ := hleaves.exists_report
    have hcan := hwrote.canWrite_iff
    refine ⟨_, fun fuel => hreport fuel (Nat.zero_le fuel), rfl, ?_, ?_, ?_, ?_, ?_⟩
    · change (if result = .ok () then 0 else 1) = 0 ↔ _
      rw [ite_eq_left_iff, ← hcan]
      constructor
      · intro hzero
        exact ⟨p, hsource, by_contra fun hcannot => absurd (hzero hcannot) Nat.one_ne_zero⟩
      · rintro ⟨q, hq, hwritable⟩ hcannot
        exact absurd (hsource.unique hq ▸ hwritable) hcannot
    · intro q hq hwritable
      obtain rfl := hsource.unique hq
      exact built_of_replaced (hwrote.replaced hwritable)
    · change (if result = .ok () then 0 else 1) ≠ 0 → (if result = .ok () then 0 else 1) = 1
      split
      · exact fun hzero => absurd rfl hzero
      · exact fun _ => rfl
    · rintro (hnone | hclosed)
      · exact absurd hsource (hnone p)
      · exact hwrote.unchanged hclosed
    · intro q hq hopen hshort
      obtain rfl := hsource.unique hq
      exact hwrote.cut hopen hshort
  · have hnone (p : Program) : ¬ world.files.Assembles source p := fun hp => hgood ⟨p, hp⟩
    obtain ⟨f, hleaves⟩ := assemble_unread 0 (LogPolicy.choose verbosity false explicit)
      (some image) hnone
    obtain ⟨front, hreport⟩ := hleaves.exists_report
    refine ⟨_, fun fuel => hreport fuel (Nat.zero_le fuel), rfl, ?_, ?_, fun _ => rfl,
      fun _ => rfl, ?_⟩
    · refine ⟨fun hstatus => absurd hstatus Nat.one_ne_zero, ?_⟩
      rintro ⟨p, hp, -⟩
      exact absurd hp (hnone p)
    · exact fun p hp => absurd hp (hnone p)
    · exact fun p hp => absurd hp (hnone p)

/-- An image that was there before is replaced by the program of a good source, or by a part of it
where there is room for two bytes only. It is kept when the source is no text. -/
theorem assemble_builds_or_breaks_each :
    let files : FileSystem :=
      ⟨[(["s"], .file 0), (["t"], .file 1), (["o"], .file 2)],
        [(0, Text.toUtf8 "halt"), (1, [0xFF]), (2, [1, 2, 3])], []⟩
    let roomy : World := ⟨files, [], none⟩
    let full : World := ⟨files, [], some (2, ⟨.named "StorageFull", "No space left on device"⟩)⟩
    let asm (source : String) : Action :=
      (Request.invoke ⟨0, .assemble source (some "o")⟩).action none
    Request.parse ["asm", "s", "-o", "o"] = some (.invoke ⟨0, .assemble "s" (some "o")⟩) ∧
      (∃ report, (∀ fuel, (asm "s").perform fuel roomy = some report) ∧ report.status = 0 ∧
        Built files report.files "o" [0x70000000]) ∧
      (∃ report, (∀ fuel, (asm "s").perform fuel full = some report) ∧ report.status = 1 ∧
        ∃ n < 4, files.Replaced report.files "o" ([0x70, 0, 0, 0].take n)) ∧
      ∃ report, (∀ fuel, (asm "t").perform fuel full = some report) ∧ report.status = 1 ∧
        report.files = files := by
  intro files roomy full asm
  have hopen : files.CanOpen "o" :=
    FileSystem.canOpen_iff.mpr ⟨2, files.store 2 [], by decide +kernel⟩
  have hroomy : roomy.CanWrite "o" (Program.toBytes [0x70000000]) := by
    refine ⟨hopen, fun room failure h => ?_⟩
    cases h
  have hfull : ¬ full.Takes (Program.toBytes [0x70000000]) := fun h =>
    absurd (h _ _ rfl) (by decide)
  have hgood : files.Assembles "s" [0x70000000] :=
    ⟨"halt", FileSystem.read_eq_ok_iff.mp (by decide +kernel),
      Assembly.eq_ok_of_toOption (by decide +kernel)⟩
  have hbad (p : Program) : ¬ files.Assembles "t" p := by
    rintro ⟨text, hholds, -⟩
    have hbytes : files.read "t" = .ok [0xFF] := by decide +kernel
    rw [← FileSystem.read_eq_ok_iff, hbytes] at hholds
    have htext := Text.ofUtf8?_eq_some_iff.mpr (Except.ok.inj hholds)
    have hnone : Text.ofUtf8? [0xFF] = none := by decide +kernel
    rw [hnone] at htext
    cases htext
  obtain ⟨hparse, report, hreport, -, hzero, hbuilt, -⟩ :=
    assemble_builds_or_breaks roomy "s" "o" 0 none
  obtain ⟨-, cut, hcut, -, hzero', -, hone', -, hpart⟩ :=
    assemble_builds_or_breaks full "s" "o" 0 none
  obtain ⟨-, kept, hkept, -, hzero'', -, hone'', hsame, -⟩ :=
    assemble_builds_or_breaks full "t" "o" 0 none
  refine ⟨hparse (by decide) (by decide) (by decide) (by decide),
    ⟨report, hreport, hzero.mpr ⟨_, hgood, hroomy⟩, hbuilt _ hgood hroomy⟩,
    ⟨cut, hcut, hone' fun h => ?_, hpart _ hgood hopen hfull⟩,
    kept, hkept, hone'' fun h => ?_, hsame (.inl hbad)⟩
  · obtain ⟨p, hp, hcan⟩ := hzero'.mp h
    exact hfull (hgood.unique hp ▸ hcan.2)
  · obtain ⟨p, hp, -⟩ := hzero''.mp h
    exact hbad p hp

/-- So a failure can leave less in the image than there was, and nothing is assembled from a source
whose name looks like an option. -/
theorem assemble_cuts_image :
    (∃ (world : World) (report : Report), world.files.CanOpen "o" ∧
      world.files.read "o" = .ok [1, 2, 3] ∧
        ((Request.invoke ⟨0, .assemble "s" (some "o")⟩).action none).perform 0 world = some report ∧
          report.status = 1 ∧ report.files.read "o" = .ok [0x70, 0]) ∧
    (∃ files : FileSystem, files.Assembles "-x" [0x70000000] ∧ files.CanOpen "out.um") ∧
      Request.parse ["asm", "-x", "-o", "out.um"] = none := by
  let old : FileSystem :=
    ⟨[(["s"], .file 0), (["o"], .file 1)], [(0, Text.toUtf8 "halt"), (1, [1, 2, 3])], []⟩
  let dashed : FileSystem := ⟨[(["-x"], .file 0)], [(0, Text.toUtf8 "halt")], []⟩
  let failure : Failure := ⟨.named "StorageFull", "No space left on device"⟩
  refine ⟨⟨⟨old, [], some (2, failure)⟩, ⟨1, [], [.line ("um: " ++
    (Failed.writingImage "o" failure).text)], (old.store 1 []).store 1 [0x70, 0]⟩, ?_, ?_, ?_, rfl,
    ?_⟩, ⟨dashed, ⟨"halt", ?_, ?_⟩, ?_⟩, ?_⟩
  · exact FileSystem.canOpen_iff.mpr ⟨1, old.store 1 [], by decide +kernel⟩
  · decide +kernel
  · decide +kernel
  · decide +kernel
  · exact FileSystem.read_eq_ok_iff.mp (by decide +kernel)
  · exact Assembly.eq_ok_of_toOption (by decide +kernel)
  · exact FileSystem.canOpen_iff.mpr
      ⟨1, { dashed with nodes := (["out.um"], .file 1) :: dashed.nodes }.store 1 [],
        by decide +kernel⟩
  · decide +kernel

end Building

end CommandLine

end UniversalMachine
