/-!
# Counters

Seven counters tell how much has arrived: of measurements the latest batch and the total, of
containers the latest batch and the maximum, of samples all three. They are 64 bits wide and
wrap around.
-/

namespace ContainerFeed

/-- What has arrived so far. -/
structure Counters where
  metricsTotal : UInt64
  metricsRecently : UInt64
  containersRecently : UInt64
  containersMax : UInt64
  samplesRecently : UInt64
  samplesMax : UInt64
  samplesTotal : UInt64
  deriving DecidableEq

namespace Counters

/-- Nothing has arrived. -/
def zero : Counters :=
  ⟨0, 0, 0, 0, 0, 0, 0⟩

/-- The counters after a batch of some measurements, with values for some containers, which
filled some samples. -/
def record (counters : Counters) (metrics containers samples : UInt64) : Counters where
  metricsTotal := counters.metricsTotal + metrics
  metricsRecently := metrics
  containersRecently := containers
  containersMax := max counters.containersMax containers
  samplesRecently := samples
  samplesMax := max counters.samplesMax samples
  samplesTotal := counters.samplesTotal + samples

end Counters

end ContainerFeed
