import NeuralMemory.Basic
import NeuralMemory.Heap
import NeuralMemory.Pool
import NeuralMemory.FreeList
import NeuralMemory.SizeClass
import NeuralMemory.Metrics
import NeuralMemory.Manager
import NeuralMemory.Session
import NeuralMemory.Invariant
import NeuralMemory.Reachable
import NeuralMemory.Table
import NeuralMemory.Validation
import NeuralMemory.Slabs
import NeuralMemory.LeakOff
import NeuralMemory.Layout
import NeuralMemory.Singleton
import NeuralMemory.UniquePtr
import NeuralMemory.Program
import NeuralMemory.PeakUpdate
import NeuralMemory.Locking
import NeuralMemory.Deadlock
import NeuralMemory.Footprint
import NeuralMemory.Races
