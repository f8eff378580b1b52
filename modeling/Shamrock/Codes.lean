/-!
# The codes of OpenCL

What calls return, and what events have as their status.
-/
namespace Shamrock

/-- The four values of `Event::Status`, an `int` that is otherwise a negative abort code. -/
abbrev clComplete : Int := 0
abbrev clRunning : Int := 1
abbrev clSubmitted : Int := 2
abbrev clQueued : Int := 3

def clSuccess : Int := 0
def clMemObjectAllocationFailure : Int := -4
def clOutOfResources : Int := -5
def clOutOfHostMemory : Int := -6
def clProfilingInfoNotAvailable : Int := -7
def clMemCopyOverlap : Int := -8
def clImageFormatMismatch : Int := -9
def clBuildProgramFailure : Int := -11
def clMisalignedSubBufferOffset : Int := -13
def clExecStatusErrorForEventsInWaitList : Int := -14
def clCompileProgramFailure : Int := -15
def clDevicePartitionFailed : Int := -18
def clInvalidValue : Int := -30
def clInvalidDevice : Int := -33
def clInvalidContext : Int := -34
def clInvalidHostPtr : Int := -37
def clInvalidMemObject : Int := -38
def clInvalidImageFormatDescriptor : Int := -39
def clInvalidImageSize : Int := -40
def clInvalidBinary : Int := -42
def clInvalidBuildOptions : Int := -43
def clInvalidProgram : Int := -44
def clInvalidProgramExecutable : Int := -45
def clInvalidKernelName : Int := -46
def clInvalidKernelDefinition : Int := -47
def clInvalidKernel : Int := -48
def clInvalidArgIndex : Int := -49
def clInvalidArgValue : Int := -50
def clInvalidArgSize : Int := -51
def clInvalidKernelArgs : Int := -52
def clInvalidWorkDimension : Int := -53
def clInvalidWorkGroupSize : Int := -54
def clInvalidWorkItemSize : Int := -55
def clInvalidEventWaitList : Int := -57
def clInvalidEvent : Int := -58
def clInvalidOperation : Int := -59
def clInvalidBufferSize : Int := -61
def clInvalidGlobalWorkSize : Int := -63

end Shamrock
