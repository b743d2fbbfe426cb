import Rvanns.Faiss.Equiv.HnswExact
import Rvanns.Faiss.Equiv.HnswFlood
import Rvanns.Faiss.Equiv.HybridTraining
import Rvanns.Faiss.Equiv.ScalarQuantizerCodecRvv
import Rvanns.Knowhere.Equiv.BitsetRebase
import Rvanns.Knowhere.Equiv.BruteForceAnnIterator
import Rvanns.Knowhere.Equiv.Config
import Rvanns.Knowhere.Equiv.DataViewFlat
import Rvanns.Knowhere.Equiv.DataViewRefiner
import Rvanns.Knowhere.Equiv.EmbListExits
import Rvanns.Knowhere.Equiv.EmbListOffset
import Rvanns.Knowhere.Equiv.EmbListSearch
import Rvanns.Knowhere.Equiv.EmptySelector
import Rvanns.Knowhere.Equiv.FairRWLockWakeups
import Rvanns.Knowhere.Equiv.HnswDistances
import Rvanns.Knowhere.Equiv.HnswPartitions
import Rvanns.Knowhere.Equiv.HnswRangeSearch
import Rvanns.Knowhere.Equiv.HnswSqNode
import Rvanns.Knowhere.Equiv.IvfSearch
import Rvanns.Knowhere.Equiv.MinHashLSH
import Rvanns.Knowhere.Equiv.MinHashLSHRaw
import Rvanns.Knowhere.Equiv.OrderedMaxSim
import Rvanns.Knowhere.Equiv.RefinerThreads
import Rvanns.Knowhere.Equiv.SparseDistances
import Rvanns.Knowhere.Equiv.SparseNodeDeadlock
import Rvanns.Knowhere.Equiv.SparseNodeRows
import Rvanns.Knowhere.Equiv.SparseRoundTrip
import Rvanns.Knowhere.MinHashRerank
