import DuneWeaver.Types

namespace DuneWeaver

/-- The feed statics of the `ThetaRho` kinematics, with the persisted
`$THR/Feed`; a table without that kinematics has no such setting. -/
structure ThetaRho where
  live_feed : Int := -1
  clear_feed : Int := -1
  feed_setting : Option Int := none
  deriving DecidableEq

namespace ThetaRho

/-- Persist the live feed. Flash writes are idle-gated, so a table that still
moves keeps the override pending. -/
def flushFeedLive (state : State) (k : ThetaRho) : ThetaRho :=
  if k.live_feed < 0 ∨ k.feed_setting = none then k
  else if state = .Idle ∨ state = .Alarm then { k with feed_setting := some k.live_feed, live_feed := -1 }
  else k

/-- Arm or disarm the feed of the clear pattern; negative disarms. -/
def setClearFeed (mm_per_min : Int) (k : ThetaRho) : ThetaRho :=
  { k with clear_feed := if mm_per_min ≥ 0 then mm_per_min else -1 }

/-- The clear override wins, then the live override, then the setting. -/
def effectiveFeed (k : ThetaRho) : Int :=
  match k.feed_setting with
  | none => -1
  | some setting =>
    if k.clear_feed ≥ 0 then k.clear_feed
    else if k.live_feed ≥ 0 then k.live_feed
    else setting

@[simp] theorem flushFeedLive_clear_feed (state : State) (k : ThetaRho) :
    (k.flushFeedLive state).clear_feed = k.clear_feed := by
  unfold flushFeedLive
  split_ifs <;> rfl

@[simp] theorem setClearFeed_clear_feed (mm_per_min : Int) (k : ThetaRho) :
    (k.setClearFeed mm_per_min).clear_feed = if mm_per_min ≥ 0 then mm_per_min else -1 := rfl

/-- Once the clear override is off, the feed is the live feed or `$THR/Feed`. -/
theorem effectiveFeed_of_disarmed {k : ThetaRho} (h : k.clear_feed < 0) :
    k.effectiveFeed = if k.feed_setting = none then -1
      else if k.live_feed ≥ 0 then k.live_feed else k.feed_setting.getD (-1) := by
  unfold effectiveFeed
  cases k.feed_setting with
  | none => simp
  | some setting => simp [show ¬ k.clear_feed ≥ 0 by omega]

end ThetaRho

end DuneWeaver
