import Devourer.Foundation.Simulation
import Devourer.Modules.Logged
import Mathlib.Algebra.Order.Floor.Ring
import Mathlib.Data.Rat.Floor

/-! # Packets that are captured later

What it means for packets, messages and clocks to be some seconds later. A clock is set by the
first packet, and is ahead from then on, as long as no time is zero.
-/

namespace Devourer

/-- The packet, captured so many seconds later. -/
inductive Property.Later (ahead : ℤ) : Property → Property → Prop where
  | intro (p : Property) (lower : -2 ^ 63 ≤ p.tvSec + ahead) (upper : p.tvSec + ahead < 2 ^ 63) :
      0 < p.tvSec → 0 < p.tvSec + ahead → 0 ≤ p.ts → 0 ≤ p.ts + ahead →
      Later ahead p { p with
        tvSec := p.tvSec + ahead
        tvSec_lower := lower
        tvSec_upper := upper
        ts := p.ts + ahead }

/-- The message, that much later. -/
def Message.later (ahead : ℤ) (msg : Message) : Message := { msg with ts := msg.ts.map (· + ahead) }

/-- Two clocks that are not set, or of which one is that much ahead. -/
inductive Clocks (ahead : ℤ) : ℤ → ℤ → Prop where
  | unset : Clocks ahead 0 0
  | set {lastTs : ℤ} : 0 < lastTs → 0 < lastTs + ahead → Clocks ahead lastTs (lastTs + ahead)

/-- A second in a `double` is a second. -/
theorem timeOfDouble_add {seconds : ℚ} (nonneg : 0 ≤ seconds) (ahead : ℤ)
    (later : 0 ≤ seconds + ahead) :
    timeOfDouble (seconds + ahead) = timeOfDouble seconds + ahead := by
  have floors : ∀ {seconds : ℚ}, 0 ≤ seconds → timeOfDouble seconds = ⌊seconds⌋ := by
    intro seconds nonneg
    rw [Rat.floor_def', timeOfDouble, Int.tdiv_eq_ediv_of_nonneg (Rat.num_nonneg.mpr nonneg)]
  rw [floors nonneg, floors later, Int.floor_add_intCast]

/-- The same uses of the logger, and reports that much later. -/
inductive Logged.Later {ε : Type} (later : ε → ε → Prop) : Logged ε → Logged ε → Prop where
  | deref (isSet : Bool) : Later later (.deref isSet) (.deref isSet)
  | event {event event' : ε} : later event event' → Later later (.event event) (.event event')

/-- The logger is set for both, or for neither. -/
theorem Logged.Later.use {ε : Type} {later : ε → ε → Prop} (fluent : Bool) :
    Exec.Mirrors (Logged.Later later) Eq (Logged.use fluent) (Logged.use fluent) := by
  cases fluent with
  | false => exact ⟨.cons (.deref false) .nil, .none⟩
  | true => exact .emit (.deref true)

/-- A report that is later, with the use of the logger that goes with it. -/
theorem Logged.Later.log {ε : Type} {later : ε → ε → Prop} (fluent : Bool) {event event' : ε}
    (here : later event event') :
    Exec.Mirrors (Logged.Later later) Eq (Logged.log fluent event) (Logged.log fluent event') :=
  (Later.use fluent).bind fun _ _ _ => .emit (.event here)

end Devourer
