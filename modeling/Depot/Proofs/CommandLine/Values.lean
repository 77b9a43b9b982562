import Depot.CommandLine.Request
import Depot.Proofs.Program
/-!
# Values of a command line

A path on a command line has bytes: an option that wants one refuses an empty argument.  No step of
the reading lets an empty path slip in.

* `Proper` — what every step of the reading keeps;
* `readArguments_proper` — the steps of a level;
* `Request.root_ne_empty` — what it means for a request.
-/

namespace Depot.CommandLine

def Proper (values : Values) : Prop := ∀ name p, (name, Value.path p) ∈ values → p ≠ .empty

namespace Proper

theorem nil : Proper [] := by
  intro name p h
  cases h

theorem cons {values : Values} (h : Proper values) {name : String} {value : Value}
    (hvalue : ∀ p, value = .path p → p ≠ .empty) : Proper ((name, value) :: values) := by
  intro name' p hmem
  rcases List.mem_cons.1 hmem with heq | hmem
  · cases heq
    exact hvalue p rfl
  · exact h name' p hmem

theorem append {values values' : Values} (h : Proper values) (h' : Proper values') :
    Proper (values ++ values') := by
  intro name p hmem
  rcases List.mem_append.1 hmem with hmem | hmem
  · exact h name p hmem
  · exact h' name p hmem

theorem path? {values : Values} (h : Proper values) {name : String} {p : Pathname}
    (hpath : Values.path? values name = some p) : p ≠ .empty := by
  rw [Values.path?] at hpath
  split at hpath
  · rename_i p' hlookup
    cases hpath
    obtain ⟨before, after, rfl, -⟩ := List.lookup_eq_some_iff.1 hlookup
    exact h name p (by simp)
  · cases hpath

end Proper

theorem ValueKind.read_path {kind : ValueKind} {option : String} {bytes : Bytes} {p : Pathname}
    (h : kind.read option bytes = .ok (.path p)) : p ≠ .empty := by
  cases kind with
  | path =>
      rw [ValueKind.read] at h
      split at h
      · cases h
      · rename_i hne
        cases h
        exact fun hempty => hne (congrArg Pathname.bytes hempty)
  | text =>
      obtain ⟨s, -, hs⟩ := map_eq_ok.1 h
      cases hs
  | number =>
      obtain ⟨s, -, hs⟩ := bind_eq_ok.1 h
      split at hs <;> cases hs
  | threshold =>
      obtain ⟨s, -, hs⟩ := bind_eq_ok.1 h
      split at hs <;> cases hs

/-! ## The steps of the reading -/

namespace Reading

variable {r r' : Reading} {o : OptionDecl}

theorem keep_proper (h : Proper r.values) {value : Except Stop Value}
    (hvalue : ∀ p, value = .ok (.path p) → p ≠ .empty) (hkeep : r.keep o value = .ok r') :
    Proper r'.values := by
  rw [keep] at hkeep
  split at hkeep
  · cases hkeep
  · obtain ⟨v, rfl, hkept⟩ := bind_eq_ok.1 hkeep
    cases hkept
    exact h.cons fun p hp => hvalue p (congrArg Except.ok hp)

theorem settleOption_proper (h : Proper r.values) {value : Option Bytes}
    (hsettle : r.settleOption o value = .ok r') : Proper r'.values := by
  unfold settleOption at hsettle
  split at hsettle
  · exact keep_proper h (by rintro p ⟨⟩) hsettle
  · cases hsettle
  · exact keep_proper h (fun p hp => ValueKind.read_path hp) hsettle

theorem settle_proper (h : Proper r.values) (hsettle : r.settle = .ok r') : Proper r'.values := by
  rw [settle] at hsettle
  split at hsettle
  · cases hsettle
    exact h
  · exact settleOption_proper (r := { r with waiting := none }) h hsettle
  · obtain ⟨s, -, hs⟩ := bind_eq_ok.1 hsettle
    cases hs
    exact h.cons (by rintro p ⟨⟩)

theorem takeOption_proper (h : Proper r.values) {attached : Option Bytes}
    (htake : r.takeOption o attached = .ok r') : Proper r'.values := by
  rw [takeOption] at htake
  -- Only a value that a flag does not want keeps what waits from being settled first.
  split at htake
  · rename_i hflag
    obtain ⟨hnone, hsome⟩ := hflag
    obtain ⟨bytes, rfl⟩ := Option.isSome_iff_exists.1 hsome
    rw [Option.isNone_iff_eq_none.1 hnone] at htake
    cases htake
  · obtain ⟨settled, hsettled, htaken⟩ := bind_eq_ok.1 htake
    have hproper := settle_proper h hsettled
    split at htaken
    · cases htaken
    · cases htaken
      exact hproper
    · exact settleOption_proper hproper htaken

theorem showText_proper {text : String} : r.showText text ≠ .ok r' := by
  intro h
  obtain ⟨settled, -, hshown⟩ := bind_eq_ok.1 h
  cases hshown

theorem takeValue_values (bytes : Bytes) : (r.takeValue bytes).values = r.values := by
  rw [takeValue]
  split <;> rfl

end Reading

section Level

variable {g : Grammar} {info : Information} {r r' : Reading} {bytes : Bytes}

theorem readLong_proper (h : Proper r.values) (hread : readLong g info r bytes = .ok r') :
    Proper r'.values := by
  unfold readLong at hread
  dsimp only at hread
  split at hread
  · exact Reading.takeOption_proper h hread
  · split at hread
    · split at hread
      · cases hread
      · exact absurd hread Reading.showText_proper
    · split at hread
      · split at hread
        · split at hread
          · cases hread
          · exact absurd hread Reading.showText_proper
        · cases hread
      · cases hread

theorem readShort_proper (h : Proper r.values) (hread : readShort g info r bytes = .ok r') :
    Proper r'.values := by
  unfold readShort at hread
  split at hread
  · cases hread
  · split at hread
    · exact Reading.takeOption_proper h hread
    · split at hread
      · exact absurd hread Reading.showText_proper
      · exact absurd hread Reading.showText_proper
      · cases hread

theorem readPlain_proper (h : Proper r.values) (hread : readPlain g r bytes = .ok r') :
    Proper r'.values := by
  rw [readPlain] at hread
  split at hread
  · obtain ⟨settled, hsettled, hwaits⟩ := bind_eq_ok.1 hread
    have hproper := Reading.settle_proper h hsettled
    cases hwaits
    exact hproper
  · cases hread

theorem readArgument_proper (h : Proper r.values) (hread : readArgument g info r bytes = .ok r') :
    Proper r'.values := by
  unfold readArgument at hread
  split at hread
  · exact readPlain_proper h hread
  · split at hread
    · exact readLong_proper h hread
    · exact readShort_proper h hread
    · split at hread
      · cases hread
        rwa [Reading.takeValue_values]
      · exact readPlain_proper h hread

theorem readArguments_proper {next : Next} {args : List Bytes} (h : Proper r.values)
    (hread : readArguments g info r args = .ok (r', next)) : Proper r'.values := by
  induction args generalizing r with
  | nil =>
      cases hread
      exact h
  | cons bytes rest ih =>
      rw [readArguments] at hread
      split at hread
      · cases hread
        exact h
      · split at hread
        · exact ih (r := { r with plain := true }) h hread
        · obtain ⟨read, hargument, hrest⟩ := bind_eq_ok.1 hread
          exact ih (readArgument_proper h hargument) hrest

theorem finish_proper (h : Proper r.values) {values : Values}
    (hfinish : g.finish r = .ok values) : Proper values := by
  obtain ⟨settled, hsettled, hvalues⟩ := bind_eq_ok.1 hfinish
  split at hvalues
  · cases hvalues
    exact Reading.settle_proper h hsettled
  · cases hvalues

end Level

theorem readCommandLine_proper {args : List Bytes} {c : CommandDecl} {values : Values}
    (h : readCommandLine args = .ok (c, values)) : Proper values := by
  obtain ⟨⟨r, next⟩, hshared, hnext⟩ := bind_eq_ok.1 h
  have hr : Proper r.values := readArguments_proper Proper.nil hshared
  cases next with
  | finish =>
      obtain ⟨settled, -, hnone⟩ := bind_eq_ok.1 hnext
      split at hnone <;> cases hnone
  | help rest => cases hnext
  | command c' rest =>
      obtain ⟨⟨inner, next'⟩, hown, hfinish⟩ := bind_eq_ok.1 hnext
      obtain ⟨own, hfinish_own, hfinish⟩ := bind_eq_ok.1 hfinish
      obtain ⟨shared, hfinish_shared, hvalues⟩ := bind_eq_ok.1 hfinish
      cases hvalues
      exact (finish_proper (readArguments_proper Proper.nil hown) hfinish_own).append
        (finish_proper hr hfinish_shared)

theorem Request.root_ne_empty {args : List Bytes} {r : Request} {root : Pathname}
    (h : Request.read args = .ok r) (hroot : r.root = some root) : root ≠ .empty := by
  obtain ⟨⟨c, values⟩, hread, hrequest⟩ := bind_eq_ok.1 h
  cases hrequest
  exact (readCommandLine_proper hread).path? hroot

end Depot.CommandLine
