import QuickJSBridge.Engine.Exception
import QuickJSBridge.Engine.Strings
import QuickJSBridge.Java.ModuleNames
import QuickJSBridge.Java.CommonJS
import QuickJSBridge.Java.CommonJSGraph
import QuickJSBridge.Java.Callbacks
import QuickJSBridge.Java.ContextOps
import QuickJSBridge.Java.ErrorDelivery
import QuickJSBridge.Java.EventQueue
import QuickJSBridge.Java.CallbackErrors
import QuickJSBridge.Java.FailureReports
import QuickJSBridge.Java.Isolation
import QuickJSBridge.Java.PendingException
import QuickJSBridge.Jni.PayloadReads
import QuickJSBridge.Java.HandleRegistry
import QuickJSBridge.Java.ReleasePool
import QuickJSBridge.Java.Rendezvous
import QuickJSBridge.Java.ThreadConfinement
import QuickJSBridge.Lib.Acyclic
import QuickJSBridge.Lib.CodeUnits
import QuickJSBridge.Lib.Machine
import QuickJSBridge.Engine.Value
import QuickJSBridge.Jni.Marshal
import QuickJSBridge.Java.TypedRead
import QuickJSBridge.Lib.Ownership.Code
import QuickJSBridge.Lib.Ownership.Runs
import QuickJSBridge.Jni.Entries
import QuickJSBridge.Jni.Accounts
import QuickJSBridge.Jni.References
import QuickJSBridge.Java.ModulePaths
import QuickJSBridge.Java.CanonicalNames
import QuickJSBridge.Java.RunToCompletion
import QuickJSBridge.Java.RuntimeClose
import QuickJSBridge.Java.Timers
import QuickJSBridge.Java.Workers
import QuickJSBridge.Jni.ErrorExtraction
import QuickJSBridge.Jni.StringTrips
import QuickJSBridge.Java.WorkerMessages
import QuickJSBridge.Java.WorkerReplies
import QuickJSBridge.Java.ResolvableNames
import QuickJSBridge.Jni.Arrays
import QuickJSBridge.Java.CallPaths
import QuickJSBridge.Java.HandleEquality
import QuickJSBridge.Java.PluginClose
import QuickJSBridge.Java.Constructors
import QuickJSBridge.Java.JsonExport
import QuickJSBridge.Java.JsonImport
import QuickJSBridge.Java.ArrayPositions
import QuickJSBridge.Java.JsonRoundTrip
import QuickJSBridge.Java.Parameters
import QuickJSBridge.Java.TimerOrder
import QuickJSBridge.Lib.Scan
import QuickJSBridge.Engine.Lexer
import QuickJSBridge.Engine.Separation
import QuickJSBridge.Java.ModuleWrapper
import QuickJSBridge.Lib.RefCounts
import QuickJSBridge.Engine.Collector
import QuickJSBridge.Engine.TrialDeletion
import QuickJSBridge.Engine.Release
import QuickJSBridge.Engine.FreeValue
import QuickJSBridge.Engine.RemoveCycles
import QuickJSBridge.Engine.HeapRuns
import QuickJSBridge.Lib.Visited
import QuickJSBridge.Engine.Modules
import QuickJSBridge.Engine.ModuleExports
import QuickJSBridge.Engine.ModuleNamespaces
import QuickJSBridge.Engine.ModuleLoading
import QuickJSBridge.Engine.LoadingFrame
import QuickJSBridge.Engine.ModulePasses
import QuickJSBridge.Engine.ModuleEvaluation
import QuickJSBridge.Engine.ModuleRuns
import QuickJSBridge.Engine.LayeredLoading
import QuickJSBridge.Engine.LayeredRuns
import QuickJSBridge.Lib.ChainIndex
import QuickJSBridge.Lib.Chains
import QuickJSBridge.Engine.Shapes
import QuickJSBridge.Engine.ShapeTables
import QuickJSBridge.Engine.ObjectOperations
import QuickJSBridge.Engine.ObjectProperties
import QuickJSBridge.Engine.PropertyHeap
import QuickJSBridge.Engine.PropertyLists
import QuickJSBridge.Engine.PropertyRuns
import QuickJSBridge.Engine.PropertyNames
import QuickJSBridge.Java.KeyOrder
import QuickJSBridge.Engine.ShapeUpdates
import QuickJSBridge.Engine.ShapeHash
import QuickJSBridge.Engine.ShapeSharing
