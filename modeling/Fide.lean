import Fide.Words
import Fide.BoundedMap
import Fide.Ledger
import Fide.Spread
import Fide.DynamicScale
import Fide.FixedPoint
import Fide.FixedPointSpec
import Fide.FixedPointValue
import Fide.Multiplication
import Fide.Quotients
import Fide.Logarithm
import Fide.LogarithmOrder
import Fide.BinaryLogarithm
import Fide.LogarithmAccuracy
import Fide.Frame
import Fide.Kernel
import Fide.Conversion
import Fide.KernelRun
import Fide.Rollover
import Fide.KernelCounts
import Fide.CounterWidth
import Fide.Divisors
import Fide.Ratio
import Fide.IdleEntropy
import Fide.Eviction
import Fide.EntropyExponents
import Fide.TimestampProtocol
import Fide.Program
import Fide.Pool
import Fide.Accesses
import Fide.Alone
import Fide.KernelPool
import Fide.Conservation
import Fide.ClockRefinement
import Fide.RunningTotal
import Fide.OrderIndependence
import Fide.Deviation
import Fide.SurgeScore
import Fide.DynamicFix
import Fide.DynamicFixSpec
import Fide.UserKernel
import Fide.Filtering
import Fide.RelatedRuns
import Fide.Renaming
import Fide.CalculateEnt
import Fide.UserEnumeration
import Fide.UserReset
import Fide.UserDetection
import Fide.UserStatistics
import Fide.UserInterleaving
import Fide.UserBalance
import Fide.MainLoop
import Fide.UserThreshold
import Fide.UserTurns
import Fide.VersionsAlike
import Fide.UserVolume
import Fide.UserSteady
import Fide.Loader
import Fide.LoaderRequests
