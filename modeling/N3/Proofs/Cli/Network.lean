import N3.Cli.Arguments
import N3.Proofs.Outcome

/-!
# The number of the network on the command line

The number that is given on the command line takes the place of the one in the settings, whatever they come from, and
nothing else changes (`settings_magic`). Settings from a file are checked before that, as they stand in the file. So a
file for a private network that leaves its number to the command line is refused (`settings_unnumbered`), and it is the
only kind of file that is refused although it would be good with the number in place (`validate_eq`).
-/

set_option autoImplicit false

namespace N3

namespace Settings

def IsUnnumbered (s : Settings) : Prop := s.network = .privateNet ∧ s.explicitMagic = none

instance (s : Settings) : Decidable s.IsUnnumbered := inferInstanceAs (Decidable (_ ∧ _))

theorem not_isUnnumbered_withMagic (s : Settings) (m : UInt32) : ¬ (s.withMagic m).IsUnnumbered := fun h => nomatch h.2

/-- A number in place changes nothing in the check but what it says of a private network. -/
theorem validate_eq (s : Settings) (m : UInt32) :
    s.validate = if s.validityIncrement ≠ 0 ∧ s.IsUnnumbered then .error .privateWithoutMagic
      else (s.withMagic m).validate := by
  -- The increment is checked first, and its error hides that the number is missing.
  by_cases hincrement : s.validityIncrement = 0
  · rw [if_neg fun h => h.1 hincrement, validate, validate, if_pos hincrement]
    exact (if_pos hincrement).symm
  · by_cases hunnumbered : s.IsUnnumbered
    · rw [if_pos ⟨hincrement, hunnumbered⟩, validate, if_neg hincrement]
      exact if_pos hunnumbered
    · rw [if_neg fun h => hunnumbered h.2, validate, validate, if_neg hincrement]
      have hwith : ¬ (s.withMagic m).IsUnnumbered := not_isUnnumbered_withMagic s m
      exact (if_neg hunnumbered).trans ((if_neg hincrement).trans (if_neg hwith)).symm

theorem validityIncrement_ne_zero {s : Settings} (h : s.validate = .ok ()) : s.validityIncrement ≠ 0 := by
  intro hincrement
  unfold validate at h
  rw [if_pos hincrement] at h
  cases h

end Settings

namespace Cli.Arguments

variable {a : Arguments} {m : UInt32} {read : String → Option String}

theorem settings_of_network (hm : a.magic = some m) (hconfig : a.config = none) :
    a.settings read = .ok ((Settings.ofNetwork a.network).withMagic m) := by
  unfold settings
  rw [hconfig, hm]
  exact if_neg (Settings.not_isUnnumbered_withMagic _ m)

/-- The settings of a file are checked before the number is put in. -/
theorem settings_of_file (hm : a.magic = some m) {path text : String} (hconfig : a.config = some path)
    (htext : read path = some text) {s : Settings} (hs : Settings.ofText text = .ok s) :
    a.settings read = s.validate >>= fun _ => .ok (s.withMagic m) := by
  have hload : Settings.load text = s.validate >>= fun _ => .ok s := by
    unfold Settings.load
    rw [hs]
    rfl
  unfold settings
  rw [hconfig, hm]
  dsimp only
  rw [htext]
  dsimp only
  rw [hload]
  cases s.validate with
  | error e => rfl
  | ok u => exact if_neg (Settings.not_isUnnumbered_withMagic s m)

/-- With a number on the command line, the settings have it, and are otherwise those of the network that is named there,
or those of the file. If the settings of the file pass the check with the number in place, this holds unless they are
for a private network and have no number of their own; then they are refused for that. If they do not pass it, they are
refused as well. -/
theorem settings_magic (hm : a.magic = some m) (read : String → Option String) :
    (a.config = none → ∃ r, a.settings read = .ok r ∧ r.magic = m ∧
      { r with explicitMagic := none } = Settings.ofNetwork a.network) ∧
    ∀ path text s, a.config = some path → read path = some text → Settings.ofText text = .ok s →
      ((s.withMagic m).validate = .ok () →
        (¬ s.IsUnnumbered → ∃ r, a.settings read = .ok r ∧ r.magic = m ∧
          { r with explicitMagic := s.explicitMagic } = s) ∧
        (s.IsUnnumbered → a.settings read = .error .privateWithoutMagic)) ∧
      ∀ e, (s.withMagic m).validate = .error e → ∃ e', a.settings read = .error e' := by
  constructor
  · intro hconfig
    exact ⟨_, settings_of_network hm hconfig, rfl, rfl⟩
  · intro path text s hconfig htext hs
    have hfile := settings_of_file hm hconfig htext hs
    rw [s.validate_eq m] at hfile
    refine ⟨fun hvalid => ⟨fun hnumbered => ?_, fun hunnumbered => ?_⟩, fun e he => ?_⟩
    · rw [if_neg fun h => hnumbered h.2, hvalid] at hfile
      exact ⟨_, hfile, rfl, rfl⟩
    · have hincrement := Settings.validityIncrement_ne_zero hvalid
      rw [if_pos ⟨hincrement, hunnumbered⟩] at hfile
      exact hfile
    · rw [he] at hfile
      split at hfile
      · exact ⟨_, hfile⟩
      · exact ⟨_, hfile⟩

def numberedText : String := "network = \"Private\"\nnetwork_magic = 1234\nmax_valid_until_block_increment = 100\n"

def numbered : Arguments := { command := .signData "00", config := some "neo.toml", magic := some 7 }

theorem settings_magic_numbered :
    ∃ r, numbered.settings (fun _ => some numberedText) = .ok r ∧ r.magic = 7 ∧ r.validityIncrement = 100 := by
  have hs : Settings.ofText numberedText =
      .ok { network := .privateNet, explicitMagic := some 1234, validityIncrement := 100 } := by
    refine Outcome.eq_ok_of_toOption ?_
    decide +kernel
  have hfile := (settings_magic (a := numbered) rfl fun _ => some numberedText).2 "neo.toml" numberedText _ rfl rfl hs
  obtain ⟨r, hr, hmagic, hrest⟩ := (hfile.1 (by decide +kernel)).1 (by decide)
  exact ⟨r, hr, hmagic, congrArg Settings.validityIncrement hrest⟩

/-- A file for a private network that leaves its number to the command line. -/
def unnumberedText : String := "network = \"Private\"\n"

theorem settings_unnumbered :
    Settings.ofText unnumberedText = .ok { network := .privateNet } ∧
      (({ network := .privateNet } : Settings).withMagic 7).validate = .ok () ∧
      numbered.settings (fun _ => some unnumberedText) = .error .privateWithoutMagic ∧
      ∃ r, { numbered with config := none, network := .privateNet }.settings (fun _ => none) = .ok r ∧ r.magic = 7 := by
  have hs : Settings.ofText unnumberedText = .ok { network := .privateNet } := by
    refine Outcome.eq_ok_of_toOption ?_
    decide +kernel
  have hincrement : ({ network := .privateNet } : Settings).validityIncrement ≠ 0 := by decide
  have hfile := @settings_of_file numbered 7 (fun _ => some unnumberedText) rfl _ unnumberedText rfl rfl _ hs
  rw [Settings.validate_eq _ 7, if_pos ⟨hincrement, rfl, rfl⟩] at hfile
  exact ⟨hs, by decide +kernel, hfile, _, settings_of_network rfl rfl, rfl⟩

end Cli.Arguments

end N3
